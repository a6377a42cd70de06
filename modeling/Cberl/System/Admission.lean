import Cberl.Api.Functions
import Cberl.Nif.Admission
import Cberl.System.Uniqueness

/-!
# Requests that are rejected leave no trace

A rejected request ends in `badarg` inside the server.  No job is posted for
it, so no worker ever answers the call that cast it.
-/

namespace Cberl.System

open Cberl Cberl.Support

section Runs

variable [LcbTypes]

/-- The NIF treats `request` as documented, and no response is ever sent for a
request without a documented reading. -/
structure DocumentedAdmission (request : Request) : Prop where
  nif : AdmitsExactly request
  silent : (∀ operation, ¬ request.Denotes operation) →
    ∀ {trace s}, Run machine trace s → RefsUnique trace →
    ∀ {p v ref}, .called p v ref request ∈ trace →
    ∀ v' job body, .responded v' ref job body ∉ trace

/-- No worker answers a call whose request does not convert. -/
theorem not_responded_of_operation_eq_none
    {trace : List Event} {s : State} {p : Pid} {v v' : ServerId} {ref : Ref}
    {request : Request} {job : Job} {body : Term}
    (hrun : Run machine trace s) (hrefs : RefsUnique trace)
    (hcalled : .called p v ref request ∈ trace)
    (hnone : request.operation = none) :
    .responded v' ref job body ∉ trace := by
  intro hresponded
  obtain ⟨cast, rfl, haccepted⟩ := accepted_of_responded hrun hresponded
  obtain ⟨-, -, rfl⟩ :=
    hrefs.called_inj hcalled (called_of_accepted hrun haccepted)
  have hsome := (job_of_accepted hrun haccepted).2
  rw [hnone] at hsome
  cases hsome

theorem documentedAdmission_iff (request : Request) :
    DocumentedAdmission request ↔
      ∀ operation, request.mend.Denotes operation →
        request.Denotes operation := by
  constructor
  · intro hdocumented
    exact (admitsExactly_iff request).mp hdocumented.nif
  · intro hmend
    refine ⟨(admitsExactly_iff request).mpr hmend, ?_⟩
    intro hno trace s hrun hrefs p v ref hcalled v' job body
    have hnone := Request.operation_eq_none_of_mend hmend hno
    exact not_responded_of_operation_eq_none hrun hrefs hcalled hnone

/-- Admission is exact for a request exactly when mending it creates no new
reading, and a failed encoding never reaches the server. -/
theorem admission_exact :
    (∀ request : Request,
      DocumentedAdmission request ↔
        ∀ operation, request.mend.Denotes operation →
          request.Denotes operation) ∧
    ∀ (codec : Codec) (requests : List Api.StoreRequest),
      (∃ request ∈ requests, ∃ raise,
        codec.encode request.encoder request.value = .error raise) →
      ∀ (answer : Request → Term) (casts : List Request), ∃ raise,
        (Api.bulkStore codec answer requests).run.run casts =
          (.error raise, casts) :=
  ⟨documentedAdmission_iff, fun _ _ => Api.bulkStore_casts_nothing⟩

/-- A get whose lock field is the atom `'true\0'`. -/
def nullAtomRequest : Request :=
  .get (.list [.tuple [.binary [107], .int 0, .atom "true\x00"]])

theorem nullAtomRequest_not_denotes (operation : Operation) :
    ¬ nullAtomRequest.Denotes operation := by
  rintro ⟨rows, ⟨tuples, htuples, hrows⟩, -⟩
  obtain rfl := Term.list_inj.mp htuples
  obtain ⟨row, -, hrow, -⟩ := List.forall₂_cons_right_iff.mp hrows
  obtain ⟨elements, helements, hfields⟩ := hrow
  obtain rfl := Term.tuple.inj helements
  obtain ⟨_, _, heq₁, -, _, _, heq₂, -, _, _, heq₃, hbool, -⟩ := hfields
  obtain ⟨rfl, rfl⟩ := List.cons.inj heq₁
  obtain ⟨rfl, rfl⟩ := List.cons.inj heq₂
  obtain ⟨rfl, rfl⟩ := List.cons.inj heq₃
  have hname := Term.atom.inj hbool
  revert hname
  cases row.2.2.1 <;> decide

end Runs

theorem nullAtomRequest_not_documented :
    let _ : LcbTypes := ⟨.uint32⟩
    ¬ DocumentedAdmission nullAtomRequest := by
  intro _ hdocumented
  have hrejected := hdocumented.nif.rejects nullAtomRequest_not_denotes
    ⟨0, 0, 0, 0⟩ 0 []
  cases hrejected

end Cberl.System
