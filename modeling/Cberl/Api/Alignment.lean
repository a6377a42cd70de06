import Cberl.Api.BulkCalls
import Cberl.Support.KeyedOrder
import Cberl.Support.Traverse

/-!
# Replies and requests of a bulk call

`MultiResponse::add` appends responses in the order in which libcouchbase runs
the callbacks, and nothing leads back from a response to the position of its
request.  libcouchbase keeps request order only among commands for the same
key, so a reply lines up with its requests exactly when the callbacks happened
to come in the order of the requests' keys.
-/

namespace Cberl.Api

open Cberl Cberl.Support

section Runs

variable [LcbTypes]

/-- A bulk call that was admitted and whose reply is `{ok, responses}`.
`results` lists what libcouchbase answers to the commands, in request order;
the callbacks deliver the same answers, in request order for each key. -/
structure BulkRun (codec : Codec) where
  call : BulkCall
  lcb : Lcb
  request : Request
  request_eq : call.request codec = .ok request
  operation : Operation
  admitted : request.operation = some operation
  outcome : Outcome Term
  outcome_eq : operation.batchOutcome lcb = some outcome
  results : List (Callback Term)
  results_keys : results.map Callback.key = call.keys
  order : KeyEquiv Callback.key outcome.callbacks results
  responses : List Term
  reply_eq : ((call.run codec (worker lcb)).run.run []).1 =
    .ok (okTerm (.list responses))

/-- The `i`-th response is for the `i`-th request: it has its key and carries
its result. -/
structure BulkRun.Aligned {codec : Codec} (run : BulkRun codec) : Prop where
  length_eq : run.responses.length = run.call.keys.length
  keys_eq : run.responses.map responseKey = run.call.keys.map some
  entries_eq : List.Forall₂
    (fun result response => run.call.entry codec result = .ok response)
    run.results run.responses

/-- A reply lines up with its requests exactly when the callbacks came in the
order of the requests' keys. -/
theorem bulkRun_aligned_iff {codec : Codec} (run : BulkRun codec) :
    run.Aligned ↔ run.outcome.callbacks.map Callback.key = run.call.keys := by
  have hentries : List.Forall₂
      (fun callback response => run.call.entry codec callback = .ok response)
      run.outcome.callbacks run.responses := by
    apply BulkCall.entries_of_reply
    rw [← BulkCall.run_worker run.request_eq run.admitted run.outcome_eq []]
    exact run.reply_eq
  have hkeys : run.responses.map responseKey =
      run.outcome.callbacks.map fun callback => some callback.key := by
    rw [← forall₂_map_eq_iff, List.forall₂_map_right_iff]
    exact hentries.imp fun _ _ hentry => BulkCall.entry_key hentry
  constructor
  · intro haligned
    apply List.map_injective_iff.mpr fun _ _ => Option.some.inj
    rw [List.map_map]
    exact hkeys.symm.trans haligned.keys_eq
  · intro horder
    have hsame : run.outcome.callbacks = run.results :=
      run.order.eq_of_map_key_eq (horder.trans run.results_keys.symm)
    rw [hsame] at hentries hkeys
    refine ⟨?_, ?_, hentries⟩
    · rw [← hentries.length_eq, ← run.results_keys, List.length_map]
    · rw [hkeys, ← run.results_keys, List.map_map]
      rfl

/-- Two removals answered by two nodes, the node of the second key first. -/
def reversedRun : BulkRun .digits where
  call := .remove [⟨[1], 0⟩, ⟨[2], 0⟩]
  lcb := { Lcb.silent with
    remove := fun commands =>
      { schedule := none
        callbacks := commands.reverse.map fun command => ⟨command.key, .ok ()⟩
        wait := none } }
  request := _
  request_eq := rfl
  operation := _
  admitted := rfl
  outcome := _
  outcome_eq := rfl
  results := [⟨[1], .ok (.atom "ok")⟩, ⟨[2], .ok (.atom "ok")⟩]
  results_keys := rfl
  order := by
    intro key
    by_cases h₁ : [1] = key
    · subst h₁
      rfl
    · by_cases h₂ : [2] = key
      · subst h₂
        rfl
      · simp [Outcome.render, RemoveCmd.ofRequest, RemoveRequest.ofRaw, h₁, h₂]
  responses :=
    [.tuple [.binary [2], .atom "ok"], .tuple [.binary [1], .atom "ok"]]
  reply_eq := rfl

end Runs

theorem reversedRun_not_aligned :
    ¬ @BulkRun.Aligned ⟨.uint32⟩ .digits (@reversedRun ⟨.uint32⟩) := by
  rintro ⟨-, hkeys, -⟩
  exact absurd hkeys (by decide)

end Cberl.Api
