/-
# `Core.Json` — the metadata blob, as far as the queue looks into it

Job metadata is JSON text the queue stores whole.  It looks inside in two
places only — the reserved counter `__dlq_retry_count` and the reserved
origin `__origin_job_id` — so a value is kept as a string, an integer, or a
text that nothing reads.

The parser and the printer are a third-party library (`serde_json`).  They are
the two fields of `Serde`; `Serde.Lawful` is the one law of that library the
development ever assumes.
-/
import FlexiQ.Lib.Table
import Mathlib.Algebra.Ring.Int.Defs

namespace FlexiQ

open FlexiQ.Lib

/-- A JSON value: a string, an integer, or anything else as its text. -/
inductive Value
  | str (s : String)
  | int (n : Int)
  | other (text : String)
  deriving DecidableEq, Repr

def Value.asStr : Value → Option String
  | .str s => some s
  | _ => none

/-- `Value::as_i64`: an integer that fits. -/
def Value.asI64 : Value → Option Int
  | .int n => if -9223372036854775808 ≤ n ∧ n ≤ 9223372036854775807 then some n else none
  | _ => none

/-- `serde_json::Map<String, Value>`. -/
abbrev JsonMap := Table String (String × Value) Prod.fst

def JsonMap.get (m : JsonMap) (k : String) : Option Value :=
  (m.find k).map Prod.snd

def JsonMap.put (m : JsonMap) (k : String) (v : Value) : JsonMap :=
  m.upsert (k, v)

@[simp] theorem JsonMap.get_put (m : JsonMap) (k : String) (v : Value) (k' : String) :
    (m.put k v).get k' = if k = k' then some v else m.get k' := by
  unfold get put
  rw [Table.find_upsert]
  split <;> simp

/-- A parsed document: an object, or anything else. -/
inductive Json
  | object (fields : JsonMap)
  | other
  deriving DecidableEq

/-- `Value::get`: only an object has fields. -/
def Json.get (k : String) : Json → Option Value
  | .object fields => fields.get k
  | .other => none

/-- `serde_json::from_str` and `serde_json::to_string` of an object. -/
structure Serde where
  parse : String → Option Json
  print : JsonMap → String

/-- What `serde_json` prints and reads back unchanged: a string, or an integer
of 64 bits.  Of a float or a larger integer nothing is assumed. -/
def Value.Exact : Value → Prop
  | .str _ => True
  | .int n => -2 ^ 63 ≤ n ∧ n < 2 ^ 64
  | .other _ => False

/-- Printing an object and parsing the text gives the same keys back, with
the values that are exact. -/
def Serde.Lawful (serde : Serde) : Prop :=
  ∀ m, ∃ m', serde.parse (serde.print m) = some (.object m') ∧
    ∀ k, (m'.get k).isSome = (m.get k).isSome ∧
      ∀ v, m.get k = some v → v.Exact → m'.get k = some v

end FlexiQ
