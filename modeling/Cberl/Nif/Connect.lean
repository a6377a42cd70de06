import Cberl.Nif.Functions

/-!
# The connect NIF

`connect_nif` converts its five arguments from the first to the last, posts one
handler to the client's `io_service` and answers `{ok, ReqId}`.  An option name
is a `str_atom`, which keeps the whole atom, unlike the fixed buffer of
`get(bool)`.
-/

namespace Cberl

/-! ## Options -/

/-- `std::tuple<nifpp::str_atom, int>` -/
structure ConnectOption where
  name : String
  value : IntType.int32.Val

/-- `enif_get_atom_length` with Latin-1 encoding. -/
def enifGetAtomLength : Term → Option ℕ
  | .atom name =>
      if name.toList.all (·.toNat ≤ 255) then some name.toList.length else none
  | _ => none

/-- `nifpp::get(str_atom)`: the buffer has room for the terminating null, which
is trimmed afterwards. -/
def getStrAtom (t : Term) : Option String :=
  match enifGetAtomLength t with
  | none => none
  | some length =>
      (enifGetAtom (length + 1) t).map fun buf => String.ofList (buf.take length)

theorem getStrAtom_eq_some_iff {t : Term} {name : String} :
    getStrAtom t = some name ↔
      t = .atom name ∧ name.toList.all (·.toNat ≤ 255) := by
  cases t with
  | atom name' =>
      by_cases hlatin1 : name'.toList.all (·.toNat ≤ 255) = true
      · have hget : getStrAtom (.atom name') = some name' := by
          simp [getStrAtom, enifGetAtomLength, enifGetAtom, hlatin1]
        rw [hget]
        constructor
        · rintro ⟨⟩
          exact ⟨rfl, hlatin1⟩
        · rintro ⟨⟨⟩, -⟩
          rfl
      · have hget : getStrAtom (.atom name') = none := by
          simp [getStrAtom, enifGetAtomLength, hlatin1]
        rw [hget]
        constructor
        · rintro ⟨⟩
        · rintro ⟨⟨⟩, hname⟩
          exact absurd hname hlatin1
  | _ => simp [getStrAtom, enifGetAtomLength]

def getOption : Term → Option ConnectOption
  | .tuple [name, value] =>
      match getStrAtom name with
      | none => none
      | some name =>
          match getInteger .int32 value with
          | none => none
          | some value => some { name, value }
  | _ => none

/-- `nifpp::get(std::vector)` on option tuples. -/
def getOptions (t : Term) : Option (List ConnectOption) :=
  match t.asList with
  | some elements => elements.mapM getOption
  | none => none

/-! ## The NIF -/

structure ConnectRequest where
  host : Bytes
  username : Bytes
  password : Bytes
  bucket : Bytes
  options : List ConnectOption

/-- A connect handler posted to the `io_service`. -/
structure ConnectJob where
  ctx : NifCTX
  request : ConnectRequest

/-- The body of `connect_nif`: it may throw, and it appends to the queue of
posted handlers. -/
abbrev ConnectM := ExceptT Raise (StateM (List ConnectJob))

/-- `nifpp::get<T>` -/
def connectArg {α : Type} : Option α → ConnectM α
  | some value => pure value
  | none => throw .badarg

def connectNif (ctx : NifCTX) (host username password bucket options : Term) :
    ConnectM RequestId := do
  let host ← connectArg (getString host)
  let username ← connectArg (getString username)
  let password ← connectArg (getString password)
  let bucket ← connectArg (getString bucket)
  let options ← connectArg (getOptions options)
  modify (· ++ [{ ctx, request := { host, username, password, bucket, options } }])
  return ctx.reqId

/-- The request five argument terms convert to. -/
def ConnectRequest.ofTerms (host username password bucket options : Term) :
    Option ConnectRequest :=
  (getString host).bind fun host =>
    (getString username).bind fun username =>
      (getString password).bind fun password =>
        (getString bucket).bind fun bucket =>
          (getOptions options).map fun options =>
            { host, username, password, bucket, options }

/-- The connect NIF either posts the converted request and returns the request
id, or raises `badarg` and posts nothing. -/
theorem connectNif_run (ctx : NifCTX)
    (host username password bucket options : Term) (queue : List ConnectJob) :
    (connectNif ctx host username password bucket options).run.run queue =
      match ConnectRequest.ofTerms host username password bucket options with
      | some request => (.ok ctx.reqId, queue ++ [⟨ctx, request⟩])
      | none => (.error .badarg, queue) := by
  unfold connectNif ConnectRequest.ofTerms
  cases getString host with
  | none => rfl
  | some host =>
      cases getString username with
      | none => rfl
      | some username =>
          cases getString password with
          | none => rfl
          | some password =>
              cases getString bucket with
              | none => rfl
              | some bucket => cases getOptions options <;> rfl

end Cberl
