import Cberl.Erlang.Term
import Mathlib.Tactic.Common

/-!
# Value encoding

`encode/2` and `decode/2` of `cberl.erl`.  The JSON library and the external
term format are not part of the repository; they enter as the four functions
of a `Codec`.
-/

namespace Cberl

/-- `jiffy:encode/1`, `jiffy:decode/1`, `term_to_binary/1` and
`binary_to_term/1`.  `jiffyEncode` answers iodata. -/
structure Codec where
  jiffyEncode : Term → Except Raise Term
  jiffyDecode : Bytes → Except Raise Term
  termToBinary : Term → Bytes
  binaryToTerm : Bytes → Except Raise Term

inductive Encoder where
  | none
  | json
  | raw
  deriving DecidableEq

inductive StoreOperation where
  | add
  | replace
  | set
  | append
  | prepend
  deriving DecidableEq

namespace Codec

variable (codec : Codec)

def encode : Encoder → Term → Except Raise (ℤ × Term)
  | .none, value => .ok (0, value)
  | .json, value => (codec.jiffyEncode value).map fun data => (1, data)
  | .raw, value => .ok (2, .binary (codec.termToBinary value))

/-- Only flags 0, 1 and 2 have a clause.  A value that is no binary, which the
NIF never delivers, makes both decoders raise. -/
def decode : (flags value : Term) → Except Raise Term
  | .int 0, value => .ok value
  | .int 1, .binary bytes => codec.jiffyDecode bytes
  | .int 2, .binary bytes => codec.binaryToTerm bytes
  | .int 1, _ => .error .badarg
  | .int 2, _ => .error .badarg
  | _, _ => .error .functionClause

/-- The codec that agrees with jiffy and with the external term format on
one-digit integers and rejects everything else; runs on concrete values use
it. -/
def digits : Codec where
  jiffyEncode
    | .int z =>
        if 0 ≤ z ∧ z ≤ 9 then .ok (.binary [UInt8.ofNat (48 + z.toNat)])
        else .error .badarg
    | _ => .error .badarg
  jiffyDecode
    | [byte] =>
        if 48 ≤ byte ∧ byte ≤ 57 then .ok (.int (byte.toNat - 48))
        else .error .badarg
    | _ => .error .badarg
  termToBinary
    | .int z => [131, 97, UInt8.ofNat z.toNat]
    | _ => [131]
  binaryToTerm
    | 131 :: 97 :: byte :: _ => .ok (.int byte.toNat)
    | _ => .error .badarg

end Codec

def getStoreOperationId : StoreOperation → ℤ
  | .add => 1
  | .replace => 2
  | .set => 3
  | .append => 4
  | .prepend => 5

end Cberl
