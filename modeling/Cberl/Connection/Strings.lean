import Cberl.Connection.Create
import Cberl.Connection.Operations
import Mathlib.Data.List.TakeWhile

/-!
# Strings handed to libcouchbase

The strings of a connect reach libcouchbase as bare C strings, and so does the
content type of an HTTP request, while its path and body are handed over with
their lengths.  A bare C string is read whole exactly when it contains no zero
byte.
-/

namespace Cberl

theorem cStr_eq_self_iff {bytes : Bytes} : cStr bytes = bytes ↔ 0 ∉ bytes := by
  rw [cStr, List.takeWhile_eq_self_iff]
  constructor
  · intro h hzero
    simpa using h 0 hzero
  · intro h byte hbyte
    have hne : byte ≠ 0 := fun hzero => h (hzero ▸ hbyte)
    simpa using hne

/-! ## What the two NIFs hand over -/

/-- The connect NIF accepts arguments that carry the four strings, and the
handler it posts creates the instance with `opts`. -/
def ConnectCarries (host username password bucket : Bytes) (opts : CreateOpts) :
    Prop :=
  ∃ ctx hostTerm usernameTerm passwordTerm bucketTerm optionsTerm queue job,
    FieldType.string.Denotes host hostTerm ∧
    FieldType.string.Denotes username usernameTerm ∧
    FieldType.string.Denotes password passwordTerm ∧
    FieldType.string.Denotes bucket bucketTerm ∧
    (connectNif ctx hostTerm usernameTerm passwordTerm bucketTerm
      optionsTerm).run.run queue = (.ok ctx.reqId, queue ++ [job]) ∧
    opts = CreateOpts.ofRequest job.request

variable [LcbTypes]

/-- The HTTP NIF accepts a request that carries the three strings, and the
handler it posts makes the request `cmd`. -/
def HttpCarries (path contentType body : Bytes) (cmd : HttpCmd) : Prop :=
  ∃ ctx connection type method pathTerm contentTypeTerm bodyTerm queue request,
    FieldType.string.Denotes path pathTerm ∧
    FieldType.string.Denotes contentType contentTypeTerm ∧
    FieldType.string.Denotes body bodyTerm ∧
    (httpNif ctx connection
      (.tuple [type, method, pathTerm, contentTypeTerm, bodyTerm])).run.run queue =
        (.ok ctx.reqId, queue ++ [⟨ctx, connection, .http request⟩]) ∧
    cmd = HttpCmd.ofRequest request

omit [LcbTypes] in
theorem getString_of_denotes {bytes : Bytes} {t : Term}
    (h : FieldType.string.Denotes bytes t) : getString t = some bytes :=
  getString_eq_some_iff.mpr h

omit [LcbTypes] in
theorem ConnectCarries.opts_eq {host username password bucket : Bytes}
    {opts : CreateOpts} (h : ConnectCarries host username password bucket opts) :
    opts =
      { host := cStr host
        user := cStr username
        passwd := cStr password
        bucket := cStr bucket } := by
  obtain ⟨ctx, hostTerm, usernameTerm, passwordTerm, bucketTerm, optionsTerm,
    queue, job, hhost, husername, hpassword, hbucket, hrun, rfl⟩ := h
  rw [connectNif_run, ConnectRequest.ofTerms, getString_of_denotes hhost,
    getString_of_denotes husername, getString_of_denotes hpassword,
    getString_of_denotes hbucket] at hrun
  cases hoptions : getOptions optionsTerm with
  | none =>
      rw [hoptions] at hrun
      cases hrun
  | some options =>
      rw [hoptions] at hrun
      have hqueue := congrArg Prod.snd hrun
      have hjob := List.append_cancel_left hqueue
      rw [← (List.cons.inj hjob).1]
      rfl

theorem HttpCarries.strings_eq {path contentType body : Bytes} {cmd : HttpCmd}
    (h : HttpCarries path contentType body cmd) :
    cmd.path = path ∧ cmd.contentType = cStr contentType ∧ cmd.body = body := by
  obtain ⟨ctx, connection, type, method, pathTerm, contentTypeTerm, bodyTerm,
    queue, request, hpath, hcontentType, hbody, hrun, rfl⟩ := h
  have hconvert := applyNif_run ctx connection
    (.http (.tuple [type, method, pathTerm, contentTypeTerm, bodyTerm])) queue
  rw [applyNif, hrun] at hconvert
  simp only [Request.operation, getTuple, List.length_cons, List.length_nil,
    arrayToTupler, FieldType.get, getString_of_denotes hpath,
    getString_of_denotes hcontentType, getString_of_denotes hbody] at hconvert
  cases htype : getInteger .int32 type with
  | none =>
      rw [htype] at hconvert
      cases hconvert
  | some typeValue =>
      cases hmethod : getInteger .int32 method with
      | none =>
          rw [htype, hmethod] at hconvert
          cases hconvert
      | some methodValue =>
          rw [htype, hmethod] at hconvert
          have hjob := List.append_cancel_left (congrArg Prod.snd hconvert)
          obtain rfl := Operation.http.inj (Job.mk.inj (List.cons.inj hjob).1).2.2
          exact ⟨rfl, rfl, rfl⟩

/-! ## Which strings are read whole -/

omit [LcbTypes] in
theorem ConnectCarries.whole_iff {host username password bucket : Bytes}
    {opts : CreateOpts} (h : ConnectCarries host username password bucket opts) :
    opts = ⟨host, username, password, bucket⟩ ↔
      0 ∉ host ∧ 0 ∉ username ∧ 0 ∉ password ∧ 0 ∉ bucket := by
  rw [h.opts_eq, CreateOpts.mk.injEq, cStr_eq_self_iff, cStr_eq_self_iff,
    cStr_eq_self_iff, cStr_eq_self_iff]

theorem HttpCarries.whole_iff {path contentType body : Bytes} {cmd : HttpCmd}
    (h : HttpCarries path contentType body cmd) :
    (cmd.path = path ∧ cmd.contentType = contentType ∧ cmd.body = body) ↔
      0 ∉ contentType := by
  obtain ⟨hpath, hcontentType, hbody⟩ := h.strings_eq
  rw [hcontentType, cStr_eq_self_iff]
  constructor
  · rintro ⟨-, hzero, -⟩
    exact hzero
  · intro hzero
    exact ⟨hpath, hzero, hbody⟩

omit [LcbTypes] in
/-- Any four strings can be given as binaries. -/
theorem connectCarries_binaries (host username password bucket : Bytes) :
    ConnectCarries host username password bucket
      { host := cStr host
        user := cStr username
        passwd := cStr password
        bucket := cStr bucket } :=
  ⟨⟨0, (0, 0, 0)⟩, .binary host, .binary username, .binary password,
    .binary bucket, .nil, [],
    ⟨⟨0, (0, 0, 0)⟩, { host, username, password, bucket, options := [] }⟩,
    Or.inl rfl, Or.inl rfl, Or.inl rfl, Or.inl rfl, rfl, rfl⟩

/-- So can the strings of an HTTP request. -/
theorem httpCarries_binaries (path contentType body : Bytes) :
    ∃ cmd, HttpCarries path contentType body cmd :=
  ⟨_, ⟨0, (0, 0, 0)⟩, 0, .int 0, .int 0, .binary path, .binary contentType,
    .binary body, [],
    { type := ⟨0, IntType.contains_zero .int32⟩
      method := ⟨0, IntType.contains_zero .int32⟩
      path, contentType, body },
    Or.inl rfl, Or.inl rfl, Or.inl rfl, rfl, rfl⟩

/-- The strings of a connect are read whole if and only if none of them contains
a zero byte, and those of an HTTP request if and only if the content type
contains none.  Requests without such bytes that differ in a string give
different create options and different commands. -/
theorem strings_read_whole_iff :
    (∀ host username password bucket opts,
      ConnectCarries host username password bucket opts →
      (opts = ⟨host, username, password, bucket⟩ ↔
        0 ∉ host ∧ 0 ∉ username ∧ 0 ∉ password ∧ 0 ∉ bucket)) ∧
    (∀ path contentType body cmd,
      HttpCarries path contentType body cmd →
      ((cmd.path = path ∧ cmd.contentType = contentType ∧ cmd.body = body) ↔
        0 ∉ contentType)) ∧
    (∀ host username password bucket host' username' password' bucket' opts,
      ConnectCarries host username password bucket opts →
      ConnectCarries host' username' password' bucket' opts →
      (0 ∉ host ∧ 0 ∉ username ∧ 0 ∉ password ∧ 0 ∉ bucket) →
      (0 ∉ host' ∧ 0 ∉ username' ∧ 0 ∉ password' ∧ 0 ∉ bucket') →
      host = host' ∧ username = username' ∧ password = password' ∧
        bucket = bucket') ∧
    (∀ path contentType body path' contentType' body' cmd,
      HttpCarries path contentType body cmd →
      HttpCarries path' contentType' body' cmd →
      0 ∉ contentType → 0 ∉ contentType' →
      path = path' ∧ contentType = contentType' ∧ body = body') := by
  refine ⟨fun _ _ _ _ _ h => h.whole_iff, fun _ _ _ _ h => h.whole_iff, ?_, ?_⟩
  · intro host username password bucket host' username' password' bucket' opts
      h h' hzero hzero'
    have hopts := h.whole_iff.mpr hzero
    rw [h'.whole_iff.mpr hzero', CreateOpts.mk.injEq] at hopts
    obtain ⟨hhost, husername, hpassword, hbucket⟩ := hopts
    exact ⟨hhost.symm, husername.symm, hpassword.symm, hbucket.symm⟩
  · intro path contentType body path' contentType' body' cmd h h' hzero hzero'
    obtain ⟨hpath, hcontentType, hbody⟩ := h.whole_iff.mpr hzero
    obtain ⟨hpath', hcontentType', hbody'⟩ := h'.whole_iff.mpr hzero'
    exact ⟨hpath.symm.trans hpath', hcontentType.symm.trans hcontentType',
      hbody.symm.trans hbody'⟩

omit [LcbTypes] in
/-- A bucket name with a zero byte inside opens the bucket with the shorter
name. -/
theorem bucket_truncated :
    ∃ opts, ConnectCarries [] [] [] [112, 0, 113] opts ∧
      ConnectCarries [] [] [] [112] opts ∧ opts ≠ ⟨[], [], [], [112, 0, 113]⟩ :=
  ⟨⟨[], [], [], [112]⟩, connectCarries_binaries [] [] [] [112, 0, 113],
    connectCarries_binaries [] [] [] [112], by simp⟩

omit [LcbTypes] in
theorem strings_read_whole_plain :
    let _ : LcbTypes := ⟨.uint32⟩
    (∃ opts, ConnectCarries [104] [117] [112] [98] opts ∧
      opts = ⟨[104], [117], [112], [98]⟩) ∧
    ∃ cmd, HttpCarries [47, 0] [116] [0] cmd ∧
      cmd.path = [47, 0] ∧ cmd.contentType = [116] ∧ cmd.body = [0] := by
  intro _
  constructor
  · have hconnect := connectCarries_binaries [104] [117] [112] [98]
    exact ⟨_, hconnect,
      (strings_read_whole_iff.1 _ _ _ _ _ hconnect).mpr (by decide)⟩
  · obtain ⟨cmd, hhttp⟩ := httpCarries_binaries [47, 0] [116] [0]
    exact ⟨cmd, hhttp,
      (strings_read_whole_iff.2.1 _ _ _ _ hhttp).mpr (by decide)⟩

end Cberl
