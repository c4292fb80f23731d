import Mathlib.Algebra.GroupWithZero.Nat
import Mathlib.Data.Char
import Mathlib.Data.List.Lex

/-!
# Text, errors and JSON values

The vocabulary every other module uses. Text is a list of characters: its lexicographic order is
the byte order in which the store keeps record names.
-/

namespace RiAuth

/-- A text, as its characters. -/
abbrev Text := List Char

instance Text.lawfulBEq : LawfulBEq (List Char) := inferInstance

-- A check of all characters of a text runs along the text, not along all characters there are.
instance (priority := 2000) Text.decidableBAll (t : List Char) (p : Char → Prop) [DecidablePred p] :
    Decidable (∀ c ∈ t, p c) := List.decidableBAll p t

/-- Number of bytes of the UTF-8 form. -/
def Text.bytes (t : Text) : ℕ := (t.map Char.utf8Size).sum

/-- `char::is_control`. -/
def isControl (c : Char) : Bool := c.toNat < 0x20 || (0x7F ≤ c.toNat && c.toNat ≤ 0x9F)

/-- `str::eq_ignore_ascii_case`. -/
def eqIgnoreAsciiCase (a b : Text) : Bool := a.map Char.toLower = b.map Char.toLower

/-- The error of every fallible operation: HTTP status, stable code, message. -/
structure Error where
  status : ℕ
  code : String
  message : String
deriving DecidableEq, Repr

namespace Error

def bad (message : String) : Error := ⟨400, "invalid_request", message⟩

def oauth (code message : String) : Error := ⟨400, code, message⟩

def unauthorized : Error :=
  ⟨401, "invalid_token", "Authentication required or session expired"⟩

def forbidden : Error := ⟨403, "access_denied", "Access denied"⟩

def missing (message : String) : Error := ⟨404, "not_found", message⟩

def conflict (message : String) : Error := ⟨409, "conflict", message⟩

/-- The cause is only logged; the caller sees a fixed message. -/
def internal : Error := ⟨500, "server_error", "Internal server error"⟩

end Error

/-- The result of a fallible operation. -/
abbrev Result (α : Type) := Except Error α

/-- `u64::MAX`. -/
def u64Max : ℕ := 18446744073709551615

/-- A JSON value. Integers are the `u64`/`i64` numbers of the source; any other number is
`float`, of which only the identity matters. -/
inductive Json where
  | null
  | bool (b : Bool)
  | int (n : ℤ)
  | float (bits : ℕ)
  | str (s : Text)
  | arr (items : List Json)
  | obj (fields : List (Text × Json))

namespace Json

mutual

/-- Structural equality of values. -/
def beq : Json → Json → Bool
  | null, null => true
  | bool a, bool b => a == b
  | int a, int b => a == b
  | float a, float b => a == b
  | str a, str b => a == b
  | arr a, arr b => beqItems a b
  | obj a, obj b => beqFields a b
  | _, _ => false

/-- Equality of two arrays. -/
def beqItems : List Json → List Json → Bool
  | [], [] => true
  | a :: as, b :: bs => beq a b && beqItems as bs
  | _, _ => false

/-- Equality of the fields of two objects. -/
def beqFields : List (Text × Json) → List (Text × Json) → Bool
  | [], [] => true
  | (k, a) :: as, (l, b) :: bs => k == l && beq a b && beqFields as bs
  | _, _ => false

end

mutual

theorem beq_iff : ∀ a b : Json, beq a b = true ↔ a = b
  | null, b => by cases b <;> simp [beq]
  | bool _, b => by cases b <;> simp [beq]
  | int _, b => by cases b <;> simp [beq]
  | float _, b => by cases b <;> simp [beq]
  | str _, b => by cases b <;> simp [beq]
  | arr as, b => by
    cases b with
    | arr bs => simpa [beq] using beqItems_iff as bs
    | _ => simp [beq]
  | obj as, b => by
    cases b with
    | obj bs => simpa [beq] using beqFields_iff as bs
    | _ => simp [beq]

theorem beqItems_iff : ∀ as bs : List Json, beqItems as bs = true ↔ as = bs
  | [], bs => by cases bs <;> simp [beqItems]
  | a :: as, [] => by simp [beqItems]
  | a :: as, b :: bs => by simp [beqItems, beq_iff a b, beqItems_iff as bs]

theorem beqFields_iff : ∀ as bs : List (Text × Json), beqFields as bs = true ↔ as = bs
  | [], bs => by cases bs <;> simp [beqFields]
  | (k, a) :: as, [] => by simp [beqFields]
  | (k, a) :: as, (l, b) :: bs => by
    simp [beqFields, beq_iff a b, beqFields_iff as bs, and_assoc]

end

instance : DecidableEq Json := fun a b => decidable_of_iff _ (beq_iff a b)

mutual

/-- Nesting of arrays and objects. -/
def depth : Json → ℕ
  | arr items => depthItems items + 1
  | obj fields => depthFields fields + 1
  | _ => 0

/-- The depth of the deepest item. -/
def depthItems : List Json → ℕ
  | [] => 0
  | v :: items => max (depth v) (depthItems items)

/-- The depth of the deepest field. -/
def depthFields : List (Text × Json) → ℕ
  | [] => 0
  | (_, v) :: fields => max (depth v) (depthFields fields)

end

mutual

/-- The value with every float replaced, by its bits. -/
def mapFloats (f : ℕ → ℕ) : Json → Json
  | float bits => float (f bits)
  | arr items => arr (mapFloatsItems f items)
  | obj fields => obj (mapFloatsFields f fields)
  | value => value

/-- The floats of an array. -/
def mapFloatsItems (f : ℕ → ℕ) : List Json → List Json
  | [] => []
  | v :: items => mapFloats f v :: mapFloatsItems f items

/-- The floats of an object's fields. -/
def mapFloatsFields (f : ℕ → ℕ) : List (Text × Json) → List (Text × Json)
  | [] => []
  | (name, v) :: fields => (name, mapFloats f v) :: mapFloatsFields f fields

end

/-- Named values keep their floats together or not at all. -/
theorem map_mapFloats_iff {f : ℕ → ℕ} {fields : List (Text × Json)} :
    (fields.map fun r => (r.1, r.2.mapFloats f)) = fields ↔ ∀ r ∈ fields, r.2.mapFloats f = r.2 := by
  refine ⟨fun h r hr => ?_, fun h => ?_⟩
  · have hsame := List.map_inj_left.mp (h.trans (List.map_id _).symm) r hr
    exact congrArg Prod.snd hsame
  · refine (List.map_congr_left fun r hr => ?_).trans (List.map_id _)
    exact Prod.ext rfl (h r hr)

/-- `value.get("field")`. -/
def get? (v : Json) (name : Text) : Option Json :=
  match v with
  | obj fields => (fields.find? (fun f => f.1 = name)).map Prod.snd
  | _ => none

/-- `value["field"]`: a missing field, or a value that is no object, reads as `null`. -/
def field (v : Json) (name : Text) : Json := (v.get? name).getD null

@[simp] theorem field_cons_self (name : Text) (v : Json) (fields : List (Text × Json)) :
    (obj ((name, v) :: fields)).field name = v := by
  simp [field, get?]

variable {name name' : Text} {v new : Json}

theorem field_cons_ne (h : name ≠ name') (v : Json) (fields : List (Text × Json)) :
    (obj ((name, v) :: fields)).field name' = (obj fields).field name' := by
  simp [field, get?, h]

/-- `value["field"] = new` on an object, keeping its fields in order. -/
def setField (v : Json) (name : Text) (new : Json) : Json :=
  match v with
  | obj fields => obj (fields.filter (fun f => f.1 < name) ++
      (name, new) :: fields.filter (fun f => name < f.1))
  | null => obj [(name, new)]
  | other => other

/-- An object without one of its fields. -/
def removeField (v : Json) (name : Text) : Json :=
  match v with
  | obj fields => obj (fields.filter fun f => f.1 ≠ name)
  | other => other

/-- The fields of an object. -/
def fields : Json → List (Text × Json)
  | obj fields => fields
  | _ => []

def isObj : Json → Bool
  | obj _ => true
  | _ => false

@[simp] theorem isObj_setField (h : v.isObj = true) : (v.setField name new).isObj = true := by
  cases v <;> simp_all [isObj, setField]

theorem get?_setField_self (h : v.isObj = true) : (v.setField name new).get? name = some new := by
  cases v with
  | obj fields =>
    have hnone : (fields.filter fun f => decide (f.1 < name)).find? (fun f => f.1 = name) = none := by
      rw [List.find?_eq_none]
      intro f hf
      have hlt := of_decide_eq_true (List.mem_filter.mp hf).2
      simpa using ne_of_lt hlt
    simp [get?, setField, List.find?_append, hnone]
  | _ => cases h

theorem field_setField_self (h : v.isObj = true) : (v.setField name new).field name = new := by
  rw [field, get?_setField_self h, Option.getD_some]

/-- A lookup in a part of the fields that is chosen by name. -/
theorem find?_filter_name (p : Text → Bool) (name : Text) (fields : List (Text × Json)) :
    (fields.filter fun f => p f.1).find? (fun f => f.1 = name) =
      if p name then fields.find? (fun f => f.1 = name) else none := by
  rw [List.find?_filter]
  split_ifs with hname
  · congr 1
    funext f
    by_cases hf : f.1 = name <;> simp [hf, hname]
  · rw [List.find?_eq_none]
    intro f _
    by_cases hf : f.1 = name <;> simp [hf, hname]

theorem get?_setField_ne (h : name' ≠ name) : (v.setField name new).get? name' = v.get? name' := by
  cases v with
  | obj fields =>
    simp only [get?, setField, List.find?_append, List.find?_cons, h.symm, decide_false,
      find?_filter_name (fun n => decide (n < name)), find?_filter_name (fun n => decide (name < n)),
      decide_eq_true_eq]
    obtain hlt | hlt := lt_or_gt_of_ne h <;> simp [hlt, hlt.not_gt]
  | null => simp [get?, setField, h.symm]
  | _ => rfl

theorem field_setField_ne (h : name' ≠ name) :
    (v.setField name new).field name' = v.field name' := by
  rw [field, get?_setField_ne h, field]

theorem get?_removeField_self : (v.removeField name).get? name = none := by
  cases v with
  | obj fields =>
    simp only [get?, removeField, find?_filter_name (fun n => decide (n ≠ name)), ne_eq,
      not_true_eq_false, decide_false, Bool.false_eq_true, if_false, Option.map_none]
  | _ => rfl

theorem get?_removeField_ne (h : name' ≠ name) :
    (v.removeField name).get? name' = v.get? name' := by
  cases v with
  | obj fields =>
    simp only [get?, removeField, find?_filter_name (fun n => decide (n ≠ name))]
    rw [if_pos (decide_eq_true h)]
  | _ => rfl

theorem field_removeField_ne (h : name' ≠ name) :
    (v.removeField name).field name' = v.field name' := by
  rw [field, get?_removeField_ne h, field]

/-- `as_u64`: the value as an unsigned 64-bit integer. -/
def asU64 : Json → Option ℕ
  | int n => if 0 ≤ n ∧ n ≤ u64Max then some n.toNat else none
  | _ => none

theorem asU64_natCast {n : ℕ} (h : n ≤ u64Max) : (int n).asU64 = some n := by
  have h1 : (0 : ℤ) ≤ n := Int.natCast_nonneg n
  have h2 : (n : ℤ) ≤ u64Max := Int.ofNat_le.mpr h
  simp only [asU64, h1, h2, and_self, if_true, Int.toNat_natCast]

/-- `as_str`. -/
def asStr : Json → Option Text
  | str s => some s
  | _ => none

/-- `as_bool`. -/
def asBool : Json → Option Bool
  | bool b => some b
  | _ => none

/-- `is_null`. -/
def isNull : Json → Bool
  | null => true
  | _ => false

end Json

end RiAuth
