import Cberl.Store.Commands
import Cberl.Store.CounterCommands

/-!
# Numbers that are stored and counted

An integer in JSON is the decimal text in which the server counts.  So numbers
may be stored as JSON, or as text without an encoder, and they may be counted,
read and removed, in any order: a number keeps its form.  A counter that
`arithmetic/6` creates is text.
-/

namespace Cberl.Store

open Cberl Cberl.Support

/-! ## Numerals -/

/-- The JSON of an integer that is not negative is its decimal text.  From
`2 ^ 63` on `jiffy:encode/1` returns that text inside a list. -/
structure JsonIntegers (codec : Codec) : Prop where
  encode : ∀ n : IntType.uint64.Val, n.val < 2 ^ 63 →
    codec.jiffyEncode (.int n.val) = .ok (.binary (decimal n.val.toNat))
  decode : ∀ n : IntType.uint64.Val,
    codec.jiffyDecode (decimal n.val.toNat) = .ok (.int n.val)

/-- A number with its form, JSON or text. -/
structure Numeral where
  value : IntType.uint64.Val
  json : Bool

namespace Numeral

variable (numeral : Numeral)

def text : Bytes :=
  decimal numeral.value.val.toNat

def encoder : Encoder :=
  if numeral.json then .json else .none

/-- What the API functions take and return. -/
def term : Term :=
  if numeral.json then .int numeral.value.val else .binary numeral.text

/-- `jiffy:encode/1` makes a binary of the number. -/
def Encodable : Prop :=
  numeral.json = true → numeral.value.val < 2 ^ 63

variable {codec : Codec} {numeral}

theorem encode_term (hjson : JsonIntegers codec)
    (hencodable : numeral.Encodable) :
    codec.encode numeral.encoder numeral.term =
      .ok ((Api.encoderFlags numeral.encoder).val, .binary numeral.text) := by
  obtain ⟨n, _ | _⟩ := numeral
  · rfl
  · simp only [encoder, term, if_true, Codec.encode,
      hjson.encode n (hencodable rfl)]
    rfl

theorem decode_text (hjson : JsonIntegers codec) :
    codec.decode (.int (Api.encoderFlags numeral.encoder).val)
      (.binary numeral.text) = .ok numeral.term := by
  obtain ⟨n, _ | _⟩ := numeral
  · rfl
  · exact hjson.decode n

end Numeral

/-! ## Numbers in a bucket -/

abbrev RefNumbers := Bytes → Option (Numeral × LcbCas)

/-- The item of a number. -/
def numeralItem (number : Numeral × LcbCas) : Item :=
  { bytes := number.1.text
    flags := Api.encoderFlags number.1.encoder
    cas := number.2 }

/-- The value that a get returns, and its CAS. -/
def numeralValue (number : Numeral × LcbCas) : Term × LcbCas :=
  (number.1.term, number.2)

/-- The bucket that holds the numbers. -/
def RefNumbers.items (numbers : RefNumbers) : Bucket :=
  fun key => (numbers key).map numeralItem

/-- The reference store of the numbers. -/
def RefNumbers.values (numbers : RefNumbers) : RefStore :=
  fun key => (numbers key).map numeralValue

theorem representsAt_numeral {codec : Codec} (hjson : JsonIntegers codec)
    (number : Option (Numeral × LcbCas)) :
    RepresentsAt codec (number.map numeralItem) (number.map numeralValue) := by
  cases number with
  | none => trivial
  | some number => exact ⟨rfl, Numeral.decode_text hjson⟩

/-- An item represents at most one value. -/
theorem RepresentsAt.unique {codec : Codec} {item : Option Item}
    {value value' : Option (Term × LcbCas)} (h : RepresentsAt codec item value)
    (h' : RepresentsAt codec item value') : value = value' := by
  cases item with
  | none =>
      cases value with
      | some value => exact h.elim
      | none =>
          cases value' with
          | some value' => exact h'.elim
          | none => rfl
  | some item =>
      cases value with
      | none => exact h.elim
      | some value =>
          cases value' with
          | none => exact h'.elim
          | some value' =>
              have hcas := h.1.symm.trans h'.1
              have hterm := Except.ok.inj (h.2.symm.trans h'.2)
              rw [Prod.ext hterm hcas]

variable [LcbTypes]

/-! ## Storing a number -/

/-- A store of a number in one of its forms. -/
def Single.Numeric : Single → Prop
  | store request => ∃ numeral : Numeral, numeral.Encodable ∧
      request.encoder = numeral.encoder ∧ request.value = numeral.term
  | get _ => True
  | remove _ => True

/-- A store command writes the text of a number and the flags of its form. -/
def Command.Numeric : Command → Prop
  | .store command => ∃ numeral : Numeral,
      command.bytes = numeral.text ∧
        command.flags = Api.encoderFlags numeral.encoder
  | .get _ => True
  | .remove _ => True

theorem numeric_of_row {codec : Codec} (hjson : JsonIntegers codec)
    {request : Api.StoreRequest} (hnumeric : (Single.store request).Numeric)
    {term : Term} {row : RawTuple StoreRequest.Raw}
    (hterm : request.toTerm codec = .ok term)
    (hrow : getTuple StoreRequest.Raw term = some row) :
    Command.Numeric
      (.store (StoreCmd.ofRequest (StoreRequest.ofRaw row))) := by
  obtain ⟨numeral, hencodable, hencoder, hvalue⟩ := hnumeric
  have hencode := Numeral.encode_term hjson hencodable
  rw [← hencoder, ← hvalue] at hencode
  rw [Api.getTuple_storeRequest hencode hterm, getString_binary,
    Option.bind_some, Option.dite_none_right_eq_some] at hrow
  obtain ⟨hranges, hrow⟩ := hrow
  obtain rfl := Option.some.inj hrow
  exact ⟨numeral, rfl, congrArg Api.encoderFlags hencoder⟩

theorem StoreCarried.overwrites {codec : Codec} {carried : StoreRequest}
    {request : Api.StoreRequest} (h : StoreCarried codec carried request)
    (hoperation : request.operation ≠ .append ∧ request.operation ≠ .prepend) :
    carried.operation.val ≠ 4 ∧ carried.operation.val ≠ 5 := by
  rw [h.operation]
  cases hop : request.operation with
  | append => exact absurd hop hoperation.1
  | prepend => exact absurd hop hoperation.2
  | _ => decide

/-- A command leaves a number where there was one, or nothing. -/
theorem Command.Carries.act_numeral {codec : Codec} {command : Command}
    {single : Single} (hcarries : command.Carries codec single)
    (hnumeric : command.Numeric) (fresh : LcbCas)
    (number : Option (Numeral × LcbCas)) :
    ∃ number' : Option (Numeral × LcbCas),
      (command.act fresh (number.map numeralItem)).1 =
        number'.map numeralItem := by
  cases hcarries with
  | @store carried request hplain hcarried =>
      obtain ⟨numeral, hbytes, hflags⟩ := hnumeric
      simp only [Command.act, storeStep]
      split
      · exact ⟨number, rfl⟩
      · refine ⟨some (numeral, fresh), ?_⟩
        have hoverwrite := hcarried.overwrites hplain.operation
        rw [written_of_overwrite hoverwrite, hbytes, hflags]
        rfl
  | get hcarried =>
      refine ⟨number, ?_⟩
      cases number <;> rfl
  | remove hcarried =>
      simp only [Command.act]
      cases number with
      | none => exact ⟨none, rfl⟩
      | some number =>
          simp only [Option.map_some, removeStep]
          split
          · exact ⟨some number, rfl⟩
          · exact ⟨none, rfl⟩

/-! ## Counting a number -/

/-- The number after an arithmetic request and its answer: a number keeps its
form, and a new one is text. -/
def refCount (number : Option (Numeral × LcbCas))
    (entry : CounterRequest × LcbCas) : Option (Numeral × LcbCas) × Term :=
  let (counter, answer) :=
    refArithmetic .memcached (number.map fun number => number.1.value) entry
  let json := (number.map fun number => number.1.json).getD false
  (counter.map fun n => ({ value := n, json }, entry.2), answer)

theorem act_counter (number : Option (Numeral × LcbCas))
    (request : CounterRequest) (fresh : LcbCas) :
    (actArithmetic .memcached fresh (number.map numeralItem)
        (ArithmeticCmd.ofRequest request.carried)).1 =
      (refCount number (request, fresh)).1.map numeralItem := by
  cases number with
  | none =>
      cases hdefault : request.default64 with
      | none =>
          simp only [actArithmetic, arithmeticStep, refCount, refArithmetic,
            ArithmeticCmd.ofRequest, CounterRequest.carried, hdefault,
            Option.map_none, Option.isSome_none]
          rfl
      | some initial =>
          simp only [actArithmetic, arithmeticStep, refCount, refArithmetic,
            ArithmeticCmd.ofRequest, CounterRequest.carried, hdefault,
            Option.map_none, Option.isSome_some]
          rfl
  | some number =>
      have hread : CounterRules.memcached.read (numeralItem number).bytes =
          some number.1.value := CounterRules.memcached.read_write _
      simp only [actArithmetic, arithmeticStep, refCount, refArithmetic, hread,
        Option.map_some]
      rfl

theorem answer_counter (number : Option (Numeral × LcbCas))
    (request : CounterRequest) (fresh : LcbCas) :
    Callback.toTerm
        { key := request.key
          result := (actArithmetic .memcached fresh (number.map numeralItem)
            (ArithmeticCmd.ofRequest request.carried)).2 } =
      .tuple [.binary request.key, (refCount number (request, fresh)).2] := by
  have hcounts : CountsAt .memcached (number.map numeralItem)
      (number.map fun number => number.1.value) := by
    cases number with
    | none => trivial
    | some number => exact CounterRules.memcached.read_write _
  exact (arithmeticStep_simulates hcounts request fresh).2

/-! ## The service -/

/-- One request on the numbers, and its entry in the reply. -/
def NumberApply (numbers : RefNumbers) (request : Single ⊕ CounterRequest)
    (entry : Term) (numbers' : RefNumbers) : Prop :=
  match request with
  | .inl single => RefApply numbers.values single entry numbers'.values
  | .inr request => ∃ fresh,
      numbers' = Function.update numbers request.key
        (refCount (numbers request.key) (request, fresh)).1 ∧
      entry = .tuple [.binary request.key,
        (refCount (numbers request.key) (request, fresh)).2]

omit [LcbTypes] in
theorem items_update (numbers : RefNumbers) (key : Bytes)
    (number : Option (Numeral × LcbCas)) :
    RefNumbers.items (Function.update numbers key number) =
      Function.update numbers.items key (number.map numeralItem) := by
  funext k
  by_cases hk : k = key
  · subst hk
    simp [RefNumbers.items]
  · simp [RefNumbers.items, hk]

/-- A command for a number in the bucket is its request on the numbers. -/
theorem Command.Carries.numberApply {codec : Codec} (hjson : JsonIntegers codec)
    {command : Command} {single : Single}
    (hcarries : command.Carries codec single) (hnumeric : command.Numeric)
    (numbers : RefNumbers) (fresh : LcbCas) :
    ∃ numbers' entry,
      command.response codec
          { key := command.key
            result := (command.act fresh (numbers.items command.key)).2 } =
        .ok entry ∧
        NumberApply numbers (.inl single) entry numbers' ∧
        Function.update numbers.items command.key
          (command.act fresh (numbers.items command.key)).1 =
            numbers'.items := by
  have hstore : Represents codec numbers.items numbers.values :=
    fun key => representsAt_numeral hjson (numbers key)
  obtain ⟨store', entry, hresponse, happly, hstore'⟩ :=
    hcarries.refApply hstore fresh
  obtain ⟨number', hnumber'⟩ :=
    hcarries.act_numeral hnumeric fresh (numbers command.key)
  let numbers' : RefNumbers := Function.update numbers command.key number'
  have hitems : Function.update numbers.items command.key
      (command.act fresh (numbers.items command.key)).1 = numbers'.items := by
    rw [items_update, ← hnumber']
    rfl
  have hvalues : store' = numbers'.values := by
    funext key
    have hvalue := hstore' key
    rw [hitems] at hvalue
    exact hvalue.unique (representsAt_numeral hjson (numbers' key))
  subst hvalues
  exact ⟨numbers', entry, hresponse, happly, hitems⟩

theorem numberApply_counter (numbers : RefNumbers) (request : CounterRequest)
    (fresh : LcbCas) :
    ∃ numbers' entry,
      Callback.toTerm
          { key := request.key
            result := (actArithmetic .memcached fresh (numbers.items request.key)
              (ArithmeticCmd.ofRequest request.carried)).2 } = entry ∧
        NumberApply numbers (.inr request) entry numbers' ∧
        Function.update numbers.items request.key
          (actArithmetic .memcached fresh (numbers.items request.key)
            (ArithmeticCmd.ofRequest request.carried)).1 = numbers'.items := by
  have hact := act_counter (numbers request.key) request fresh
  have hanswer := answer_counter (numbers request.key) request fresh
  refine ⟨_, _, hanswer, ⟨fresh, rfl, rfl⟩, ?_⟩
  rw [items_update, ← hact]
  rfl

/-- The operation of a numeric call writes numbers. -/
theorem numeric_of_call {codec : Codec} (hjson : JsonIntegers codec)
    {call : Call} (hnumeric : ∀ single ∈ call.singles, single.Numeric)
    {request : Request} {operation : Operation}
    (hrequest : call.bulk.request codec = .ok request)
    (hoperation : request.operation = some operation) :
    ∀ command ∈ commandsOf operation, command.Numeric := by
  cases call with
  | store requests =>
      obtain ⟨terms, hterms, rfl⟩ := except_map_eq_ok_iff.mp hrequest
      obtain ⟨rows, hrows, rfl⟩ := Option.map_eq_some_iff.mp hoperation
      rw [mapM_except_eq_ok_iff] at hterms
      have heach := (@Api.getVector_eq_some_iff_forall₂ _ _ id terms rows).mp
        (by rwa [List.map_id])
      have hsource : ∀ term ∈ terms, ∃ request ∈ requests,
          request.toTerm codec = .ok term :=
        forall_mem_of_forall₂ hterms fun request hrequest _ hterm =>
          ⟨request, hrequest, hterm⟩
      have hwrites : ∀ row ∈ rows, Command.Numeric
          (.store (StoreCmd.ofRequest (StoreRequest.ofRaw row))) := by
        refine forall_mem_of_forall₂ heach fun term hterm row hrow => ?_
        obtain ⟨request, hrequest, hterm⟩ := hsource term hterm
        exact numeric_of_row hjson
          (hnumeric _ (List.mem_map_of_mem hrequest)) hterm hrow
      intro command hcommand
      obtain ⟨carried, hcarried, rfl⟩ := List.mem_map.mp hcommand
      obtain ⟨row, hrow, rfl⟩ := List.mem_map.mp hcarried
      exact hwrites row hrow
  | get keys =>
      obtain rfl := Except.ok.inj hrequest
      obtain ⟨rows, -, rfl⟩ := Option.map_eq_some_iff.mp hoperation
      intro command hcommand
      obtain ⟨carried, -, rfl⟩ := List.mem_map.mp hcommand
      trivial
  | remove requests =>
      obtain rfl := Except.ok.inj hrequest
      obtain ⟨rows, -, rfl⟩ := Option.map_eq_some_iff.mp hoperation
      intro command hcommand
      obtain ⟨carried, -, rfl⟩ := List.mem_map.mp hcommand
      trivial

theorem Carries.no_arithmetic {codec : Codec} {operation : Operation}
    {call : Call} (hcarries : Carries codec operation call) :
    arithmeticCommandsOf operation = [] := by
  cases operation with
  | arithmetic carried => cases call <;> exact hcarries.elim
  | _ => rfl

/-- The command is what becomes of the request. -/
inductive NumberCarries (codec : Codec) :
    Command ⊕ ArithmeticCmd → Single ⊕ CounterRequest → Prop
  | value {command : Command} {single : Single}
      (hcarries : command.Carries codec single) (hnumeric : command.Numeric) :
      NumberCarries codec (.inl command) (.inl single)
  | count (request : CounterRequest) :
      NumberCarries codec (.inr (ArithmeticCmd.ofRequest request.carried))
        (.inr request)

/-- The commands of an operation on numbers. -/
def numberCommandsOf (operation : Operation) : List (Command ⊕ ArithmeticCmd) :=
  (commandsOf operation).map .inl ++ (arithmeticCommandsOf operation).map .inr

theorem numberCommandsOf_carried {codec : Codec} {operation : Operation}
    {call : Call} (hcarries : Carries codec operation call) :
    numberCommandsOf operation = (commandsOf operation).map .inl := by
  rw [numberCommandsOf, hcarries.no_arithmetic, List.map_nil, List.append_nil]

theorem numberCarries_of_carries {codec : Codec} {operation : Operation}
    {call : Call} (hcarries : Carries codec operation call)
    (hplain : call.Plain codec)
    (hnumeric : ∀ command ∈ commandsOf operation, command.Numeric) :
    List.Forall₂ (NumberCarries codec) (numberCommandsOf operation)
      (call.singles.map .inl) := by
  rw [numberCommandsOf_carried hcarries, List.forall₂_map_left_iff,
    List.forall₂_map_right_iff]
  have hboth := (List.forall₂_and_left _ _).mpr
    ⟨hnumeric, hcarries.commands hplain⟩
  exact hboth.imp fun _ _ h => .value h.2 h.1

theorem numberCarries_counter (codec : Codec) (requests : List CounterRequest) :
    List.Forall₂ (NumberCarries codec)
      (numberCommandsOf (.arithmetic (requests.map CounterRequest.carried)))
      (requests.map .inr) := by
  simp only [numberCommandsOf, commandsOf, arithmeticCommandsOf, List.map_nil,
    List.nil_append, List.map_map, List.forall₂_map_left_iff,
    List.forall₂_map_right_iff, List.forall₂_same]
  exact fun request _ => .count request

/-- The entry an API function makes of the callback of a command. -/
def numberResponse (codec : Codec) (command : Command ⊕ ArithmeticCmd)
    (callback : Callback Term) : Except Raise Term :=
  match command with
  | .inl command => command.response codec callback
  | .inr _ => .ok callback.toTerm

theorem numberResponse_eq {codec : Codec} {operation : Operation} {call : Call}
    (hcarries : Carries codec operation call) {command : Command ⊕ ArithmeticCmd}
    (hcommand : command ∈ numberCommandsOf operation)
    (callback : Callback Term) :
    call.bulk.entry codec callback = numberResponse codec command callback := by
  rw [numberCommandsOf_carried hcarries] at hcommand
  obtain ⟨command, hmem, rfl⟩ := List.mem_map.mp hcommand
  exact hcarries.entry_eq hmem callback

/-- Stores of numbers, gets, removes and arithmetic, explained by the reference
numbers. -/
@[reducible]
def numeric {codec : Codec} (hjson : JsonIntegers codec) : Service where
  codec := codec
  Call := Call ⊕ CounterCall
  Single := Single ⊕ CounterRequest
  Command := Command ⊕ ArithmeticCmd
  bulk := Sum.elim Call.bulk CounterCall.bulkCall
  Plain := Sum.elim
    (fun call => call.Plain codec ∧ ∀ single ∈ call.singles, single.Numeric)
    fun _ => True
  singles := Sum.elim (fun call => call.singles.map .inl)
    fun call => call.requests.map .inr
  commandsOf := numberCommandsOf
  key := Sum.elim Command.key ArithmeticCmd.key
  act := fun fresh item => Sum.elim (Command.act fresh item)
    (actArithmetic .memcached fresh item)
  response := numberResponse codec
  Carries := NumberCarries codec
  RefState := RefNumbers
  Represents := fun bucket numbers => bucket = numbers.items
  Apply := NumberApply
  carried := by
    intro call hplain
    cases call with
    | inl call =>
        obtain ⟨hplain, hnumeric⟩ := hplain
        obtain ⟨request, operation, hrequest, hoperation, hcarries⟩ :=
          call.carried hplain
        have hwrites := numeric_of_call hjson hnumeric hrequest hoperation
        exact ⟨request, operation, hrequest, hoperation, {
          commands := numberCarries_of_carries hcarries hplain hwrites
          entry := fun _ hcommand => numberResponse_eq hcarries hcommand
          outcome := hcarries.exists_outcome }⟩
    | inr call =>
        exact ⟨call.request, _, call.bulkCall_request codec,
          call.request_operation, {
            commands := numberCarries_counter codec call.requests
            entry := fun _ hcommand => by
              obtain ⟨command, -, rfl⟩ := List.mem_map.mp hcommand
              exact fun _ => rfl
            outcome := fun _ => ⟨_, rfl⟩ }⟩
  refApply := by
    intro command request hcarried bucket numbers hnumbers fresh
    subst hnumbers
    cases hcarried with
    | value hcarries hnumeric =>
        exact hcarries.numberApply hjson hnumeric numbers fresh
    | count request =>
        obtain ⟨numbers', entry, hentry, happly, hitems⟩ :=
          numberApply_counter numbers request fresh
        exact ⟨numbers', entry, congrArg Except.ok hentry, happly, hitems⟩

end Cberl.Store
