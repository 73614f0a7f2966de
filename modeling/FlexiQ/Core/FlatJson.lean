/-
# `Core.FlatJson` — a printer and a parser of flat objects

What `serde_json` writes for an object of strings and integers, without
blanks, and an automaton that reads it back.  It is the `Serde` the examples
of this development run on; that it is lawful is all they need of it.
-/
import FlexiQ.Core.Json
import FlexiQ.Lib.Text

namespace FlexiQ.FlatJson

open List FlexiQ.Lib

/-! ## Printing -/

def escape (c : Char) : List Char := if c = '"' ∨ c = '\\' then ['\\', c] else [c]

def quoted (s : String) : List Char := '"' :: (s.toList.flatMap escape ++ ['"'])

/-- Strings and integers; anything else is printed as `null`. -/
def valueText : Value → List Char
  | .str s => quoted s
  | .int n => decimal n
  | .other _ => ['n', 'u', 'l', 'l']

def fieldText (r : String × Value) : List Char := quoted r.1 ++ ':' :: valueText r.2

def restText (rows : List (String × Value)) : List Char := rows.flatMap fun r => ',' :: fieldText r

def objectText : List (String × Value) → List Char
  | [] => ['{', '}']
  | r :: rows => '{' :: (fieldText r ++ restText rows ++ ['}'])

/-! ## Reading -/

inductive Reading
  | start
  | opened
  | nextKey (m : JsonMap)
  | key (m : JsonMap) (text : List Char) (escaped : Bool)
  | colon (m : JsonMap) (k : String)
  | value (m : JsonMap) (k : String)
  | str (m : JsonMap) (k : String) (text : List Char) (escaped : Bool)
  | token (m : JsonMap) (k : String) (text : List Char)
  | field (m : JsonMap)
  | closed (m : JsonMap)

/-- The texts are gathered backwards. -/
def textOf (text : List Char) : String := String.ofList text.reverse

/-- A token that is no number is kept as its text. -/
def tokenValue (text : List Char) : Value :=
  match text.reverse with
  | '-' :: digits =>
    if digits.all Char.isDigit then .int (-ofDecimal digits) else .other (textOf text)
  | digits => if digits.all Char.isDigit then .int (ofDecimal digits) else .other (textOf text)

def fieldEnd (m : JsonMap) (c : Char) : Option Reading :=
  if c = ',' then some (.nextKey m) else if c = '}' then some (.closed m) else none

def read : Reading → Char → Option Reading
  | .start, c => if c = '{' then some .opened else none
  | .opened, c =>
    if c = '"' then some (.key .empty [] false) else if c = '}' then some (.closed .empty) else none
  | .nextKey m, c => if c = '"' then some (.key m [] false) else none
  | .key m text true, c => some (.key m (c :: text) false)
  | .key m text false, c =>
    if c = '\\' then some (.key m text true)
    else if c = '"' then some (.colon m (textOf text)) else some (.key m (c :: text) false)
  | .colon m k, c => if c = ':' then some (.value m k) else none
  | .value m k, c => if c = '"' then some (.str m k [] false) else some (.token m k [c])
  | .str m k text true, c => some (.str m k (c :: text) false)
  | .str m k text false, c =>
    if c = '\\' then some (.str m k text true)
    else if c = '"' then some (.field (m.put k (.str (textOf text))))
    else some (.str m k (c :: text) false)
  | .token m k text, c =>
    if c = ',' ∨ c = '}' then fieldEnd (m.put k (tokenValue text)) c
    else some (.token m k (c :: text))
  | .field m, c => fieldEnd m c
  | .closed _, _ => none

def readAll (r : Reading) (text : List Char) : Option Reading := text.foldlM read r

def flatJson : Serde where
  parse text :=
    match readAll .start text.toList with
    | some (.closed m) => some (.object m)
    | _ => none
  print m := String.ofList (objectText m.rows)

/-! ## The round trip -/

variable {m : JsonMap} {k : String} {rest : List Char}

@[simp] theorem readAll_cons (r : Reading) (c : Char) (text : List Char) :
    readAll r (c :: text) = (read r c).bind fun r => readAll r text := rfl

/-- A reading that gathers a text: it takes what the printer makes of a
character as that character. -/
def Gathers (state : List Char → Bool → Reading) : Prop :=
  (∀ text c, read (state text true) c = some (state (c :: text) false)) ∧
    ∀ text c, read (state text false) c =
      if c = '\\' then some (state text true)
      else if c = '"' then read (state text false) '"' else some (state (c :: text) false)

theorem Gathers.escaped {state : List Char → Bool → Reading} (h : Gathers state) :
    ∀ (s text : List Char), readAll (state text false) (s.flatMap escape ++ '"' :: rest) =
      readAll (state (s.reverse ++ text) false) ('"' :: rest)
  | [], _ => rfl
  | c :: s, text => by
    have hone : readAll (state text false) (escape c ++ (s.flatMap escape ++ '"' :: rest)) =
        readAll (state (c :: text) false) (s.flatMap escape ++ '"' :: rest) := by
      unfold escape
      by_cases hc : c = '"' ∨ c = '\\'
      · rw [if_pos hc]
        simp [h.1, h.2]
      · rw [not_or] at hc
        rw [if_neg (not_or.mpr hc), cons_append, nil_append, readAll_cons, h.2, if_neg hc.2,
          if_neg hc.1]
        rfl
    rw [flatMap_cons, append_assoc, hone, Gathers.escaped h s, reverse_cons, append_assoc]
    rfl

theorem readAll_key : readAll (.key m [] false) (k.toList.flatMap escape ++ '"' :: rest) =
    readAll (.colon m k) rest := by
  have hgathers : Gathers (Reading.key m) := ⟨fun _ _ => rfl, fun text c => by
    by_cases hc : c = '"' <;> simp [read, hc]⟩
  rw [hgathers.escaped]
  simp [read, textOf]

theorem readAll_str {s : String} :
    readAll (.str m k [] false) (s.toList.flatMap escape ++ '"' :: rest) =
      readAll (.field (m.put k (.str s))) rest := by
  have hgathers : Gathers (Reading.str m k) := ⟨fun _ _ => rfl, fun text c => by
    by_cases hc : c = '"' <;> simp [read, hc]⟩
  rw [hgathers.escaped]
  simp [read, textOf]

theorem readAll_token : ∀ {s text : List Char}, (∀ c ∈ s, c ≠ ',' ∧ c ≠ '}') →
    readAll (.token m k text) (s ++ rest) = readAll (.token m k (s.reverse ++ text)) rest
  | [], _, _ => rfl
  | c :: s, text, h => by
    have hc := h c mem_cons_self
    rw [cons_append, readAll_cons, read, if_neg (by simp [hc]), Option.bind_some,
      readAll_token fun c' hc' => h c' (mem_cons_of_mem _ hc')]
    simp

theorem tokenValue_decimal (n : Int) : tokenValue (decimal n).reverse = .int n := by
  have hdigits : (Nat.toDigits 10 n.natAbs).all Char.isDigit = true :=
    all_eq_true.mpr fun c hc => Nat.isDigit_of_mem_toDigits (by decide) (by decide) hc
  have hvalue : ofDecimal (Nat.toDigits 10 n.natAbs) = n.natAbs := by
    rw [ofDecimal, Nat.ofDigitChars_toDigits (by decide) (by decide)]
  unfold tokenValue decimal
  rw [reverse_reverse]
  by_cases hn : n < 0
  · rw [if_pos hn]
    simp only [hdigits, if_true, hvalue, Value.int.injEq]
    omega
  · rw [if_neg hn]
    split
    · next digits heq =>
      exact absurd (heq ▸ mem_cons_self) (not_mem_toDigits (by decide) n.natAbs)
    · rw [hdigits, if_pos rfl, hvalue]
      exact congrArg Value.int (by omega)

def reread : Value → Value
  | .other _ => .other "null"
  | v => v

theorem readAll_value (v : Value) {c : Char} (hc : c = ',' ∨ c = '}') :
    readAll (.value m k) (valueText v ++ c :: rest) =
      (fieldEnd (m.put k (reread v)) c).bind fun r => readAll r rest := by
  have htoken : ∀ (d : Char) (s : List Char), d ≠ '"' → (∀ c ∈ d :: s, c ≠ ',' ∧ c ≠ '}') →
      readAll (.value m k) (d :: s ++ c :: rest) =
        (fieldEnd (m.put k (tokenValue (d :: s).reverse)) c).bind fun r => readAll r rest := by
    intro d s hd hs
    rw [cons_append, readAll_cons, read, if_neg hd, Option.bind_some,
      readAll_token fun c' hc' => hs c' (mem_cons_of_mem _ hc'), readAll_cons, read, if_pos hc,
      reverse_cons]
  cases v with
  | str s =>
    show readAll (.value m k) ('"' :: (s.toList.flatMap escape ++ ['"']) ++ c :: rest) = _
    rw [cons_append, append_assoc, readAll_cons]
    exact readAll_str
  | int n =>
    have hfree : ∀ c ∈ decimal n, c ≠ ',' ∧ c ≠ '}' := fun c' hc' =>
      ⟨fun heq => not_mem_decimal (by decide) (by decide) (heq ▸ hc'),
        fun heq => not_mem_decimal (by decide) (by decide) (heq ▸ hc')⟩
    have hquote : '"' ∉ decimal n := not_mem_decimal (by decide) (by decide)
    have hint := tokenValue_decimal n
    show readAll (.value m k) (decimal n ++ c :: rest) = _
    cases hdec : decimal n with
    | nil => exact absurd hdec (decimal_ne_nil n)
    | cons d s =>
      rw [hdec] at hfree hquote hint
      rw [htoken d s (fun heq => hquote (heq ▸ mem_cons_self)) hfree, hint]
      rfl
  | other text => exact htoken 'n' _ (by decide) (by simp)

theorem readAll_field (r : String × Value) {c : Char} (hc : c = ',' ∨ c = '}') :
    readAll (.key m [] false)
        (r.1.toList.flatMap escape ++ '"' :: ':' :: valueText r.2 ++ c :: rest) =
      (fieldEnd (m.put r.1 (reread r.2)) c).bind fun r => readAll r rest := by
  rw [append_assoc, cons_append, cons_append, readAll_key, readAll_cons]
  exact readAll_value r.2 hc

def rereadAll (m : JsonMap) (rows : List (String × Value)) : JsonMap :=
  rows.foldl (fun m r => m.put r.1 (reread r.2)) m

theorem readAll_rest : ∀ (rows : List (String × Value)) (m : JsonMap) (r : String × Value),
    readAll (.key m [] false) (r.1.toList.flatMap escape ++ '"' :: ':' :: valueText r.2 ++
      (restText rows ++ ['}'])) = some (.closed (rereadAll m (r :: rows)))
  | [], m, r => by
    rw [restText, flatMap_nil, nil_append, readAll_field r (.inr rfl)]
    rfl
  | r' :: rows, m, r => by
    have htext : restText (r' :: rows) ++ ['}'] = ',' :: '"' :: (r'.1.toList.flatMap escape ++
        '"' :: ':' :: valueText r'.2 ++ (restText rows ++ ['}'])) := by
      simp [restText, fieldText, quoted]
    rw [htext, readAll_field r (.inl rfl)]
    show readAll (.key (m.put r.1 (reread r.2)) [] false) _ = _
    rw [readAll_rest rows]
    rfl

theorem readAll_object : ∀ rows : List (String × Value),
    readAll .start (objectText rows) = some (.closed (rereadAll .empty rows))
  | [] => rfl
  | r :: rows => by
    have htext : objectText (r :: rows) = '{' :: '"' :: (r.1.toList.flatMap escape ++
        '"' :: ':' :: valueText r.2 ++ (restText rows ++ ['}'])) := by
      simp [objectText, fieldText, quoted]
    rw [htext]
    exact readAll_rest rows .empty r

theorem get_rereadAll : ∀ (rows : List (String × Value)) (m : JsonMap),
    (rows.map Prod.fst).Nodup → (rereadAll m rows).get k =
      ((rows.find? fun r => r.1 = k).map fun r => reread r.2).or (m.get k)
  | [], m, _ => rfl
  | r :: rows, m, hnodup => by
    obtain ⟨hfirst, hrest⟩ := nodup_cons.mp hnodup
    show (rereadAll (m.put r.1 (reread r.2)) rows).get k = _
    rw [get_rereadAll rows _ hrest, JsonMap.get_put, find?_cons]
    by_cases hk : r.1 = k
    · have hnone : rows.find? (fun r => r.1 = k) = none := by
        rw [find?_eq_none]
        intro r' hr' heq
        exact hfirst (hk ▸ of_decide_eq_true heq ▸ mem_map_of_mem hr')
      simp [hk, hnone]
    · simp [hk]

/-- **What is printed is read back**, up to the values that are not
printed. -/
theorem lawful_flatJson : flatJson.Lawful := by
  intro m
  have hparse : flatJson.parse (flatJson.print m) = some (.object (rereadAll .empty m.rows)) := by
    simp only [flatJson, String.toList_ofList, readAll_object]
  have hget : ∀ k, (rereadAll .empty m.rows).get k = (m.get k).map reread := by
    intro k
    rw [get_rereadAll m.rows .empty m.nodup]
    show _ = (((m.rows.find? fun r => r.1 = k).map Prod.snd).map reread)
    cases m.rows.find? fun r => r.1 = k <;> rfl
  refine ⟨_, hparse, fun k => ⟨?_, fun v hv hexact => ?_⟩⟩
  · rw [hget, Option.isSome_map]
  · rw [hget, hv, Option.map_some]
    cases v with
    | str | int => rfl
    | other => cases hexact

end FlexiQ.FlatJson
