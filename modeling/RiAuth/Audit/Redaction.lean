import Mathlib.Data.List.Infix
import RiAuth.Basic

/-!
# Redaction of audit values

Before a value goes to the audit log, every field whose name carries a secret is replaced, at any
depth; the two markers that say so already are kept.

* `redactAuditValue`: the redaction;
* `Agree`: two values that differ only under sensitive names;
* `redactAt_of_agree`: such values are redacted to the same;
* `redactAt_strip`: leaving fields out of an object and redaction commute.
-/

namespace RiAuth.Audit

open Json

/-! ## Sensitive names -/

/-- What replaces a sensitive value. -/
def redacted : Text := "[redacted]".toList

/-- What marks a changed credential. -/
def changed : Text := "[changed]".toList

/-- The value is one of the two markers. -/
def isMarker (v : Json) : Bool := v = .str redacted || v = .str changed

/-- A name that carries one of these is sensitive. -/
def sensitiveParts : List Text :=
  ["secret", "password", "token", "hash", "totp", "recovery", "seed", "private_key",
    "key_material", "authorization_header", "auth_header"].map String.toList

/-- Whether a field's name tells of a secret. -/
def sensitiveAuditName (name : Text) : Bool :=
  let name := name.map Char.toLower
  sensitiveParts.any (fun part => part <:+: name) ||
    name ∈ ["authorization", "proxy-authorization", "cookie"].map String.toList

/-! ## Redaction -/

mutual

/-- The value at a depth; nothing is shown from depth 32 on. -/
def redactAt (depth : ℕ) : Json → Json
  | .obj fields => if 32 ≤ depth then .str redacted else .obj (redactFields depth fields)
  | .arr items => if 32 ≤ depth then .str redacted else .arr (redactItems depth items)
  | v => if 32 ≤ depth then .str redacted else v

/-- The fields of an object. -/
def redactFields (depth : ℕ) : List (Text × Json) → List (Text × Json)
  | [] => []
  | (name, v) :: fields =>
    (name, if sensitiveAuditName name then (if isMarker v then v else .str redacted)
      else redactAt (depth + 1) v) :: redactFields depth fields

/-- The items of an array. -/
def redactItems (depth : ℕ) : List Json → List Json
  | [] => []
  | v :: items => redactAt (depth + 1) v :: redactItems depth items

end

/-- Replace values whose names carry secrets, passwords, tokens, hashes or key material. -/
def redactAuditValue (v : Json) : Json := redactAt 0 v

/-! ## Values that differ only under sensitive names -/

mutual

/-- The values differ at most under sensitive names, and there neither is a marker. -/
def Agree : Json → Json → Prop
  | .obj fields, .obj fields' => AgreeFields fields fields'
  | .arr items, .arr items' => AgreeItems items items'
  | v, v' => v = v'

/-- Agreement of the fields of two objects. -/
def AgreeFields : List (Text × Json) → List (Text × Json) → Prop
  | [], [] => True
  | (name, v) :: fields, (name', v') :: fields' =>
    name = name' ∧
      (if sensitiveAuditName name then v = v' ∨ isMarker v = false ∧ isMarker v' = false
        else Agree v v') ∧
      AgreeFields fields fields'
  | _, _ => False

/-- Agreement of the items of two arrays. -/
def AgreeItems : List Json → List Json → Prop
  | [], [] => True
  | v :: items, v' :: items' => Agree v v' ∧ AgreeItems items items'
  | _, _ => False

end

mutual

theorem Agree.refl : ∀ v : Json, Agree v v
  | .obj fields => AgreeFields.refl fields
  | .arr items => AgreeItems.refl items
  | .null | .bool _ | .int _ | .float _ | .str _ => by simp [Agree]

theorem AgreeFields.refl : ∀ fields : List (Text × Json), AgreeFields fields fields
  | [] => by simp [AgreeFields]
  | (name, v) :: fields => by
    refine ⟨rfl, ?_, AgreeFields.refl fields⟩
    split
    · exact .inl rfl
    · exact Agree.refl v

theorem AgreeItems.refl : ∀ items : List Json, AgreeItems items items
  | [] => by simp [AgreeItems]
  | v :: items => ⟨Agree.refl v, AgreeItems.refl items⟩

end

/-- The same field stands in front of both. -/
theorem AgreeFields.cons (f : Text × Json) {fields fields' : List (Text × Json)}
    (h : AgreeFields fields fields') : AgreeFields (f :: fields) (f :: fields') := by
  refine ⟨rfl, ?_, h⟩
  split
  · exact .inl rfl
  · exact Agree.refl f.2

mutual

/-- **Values that differ only under sensitive names are redacted to the same.** -/
theorem redactAt_of_agree (depth : ℕ) : ∀ v v' : Json, Agree v v' →
    redactAt depth v = redactAt depth v'
  | .obj fields, .obj fields', h => by
    rw [redactAt, redactAt, redactFields_of_agree depth fields fields' h]
  | .arr items, .arr items', h => by
    rw [redactAt, redactAt, redactItems_of_agree depth items items' h]
  | .null, v', h | .bool _, v', h | .int _, v', h | .float _, v', h | .str _, v', h => by
    cases v' <;> simp_all [Agree]
  | .obj _, .null, h | .obj _, .bool _, h | .obj _, .int _, h | .obj _, .float _, h
  | .obj _, .str _, h | .obj _, .arr _, h => by simp [Agree] at h
  | .arr _, .null, h | .arr _, .bool _, h | .arr _, .int _, h | .arr _, .float _, h
  | .arr _, .str _, h | .arr _, .obj _, h => by simp [Agree] at h

theorem redactFields_of_agree (depth : ℕ) : ∀ fields fields' : List (Text × Json),
    AgreeFields fields fields' → redactFields depth fields = redactFields depth fields'
  | [], [], _ => rfl
  | (name, v) :: fields, (name', v') :: fields', h => by
    obtain ⟨rfl, hv, hfields⟩ := h
    rw [redactFields, redactFields, redactFields_of_agree depth fields fields' hfields]
    by_cases hname : sensitiveAuditName name
    · rw [if_pos hname] at hv
      obtain rfl | ⟨hv, hv'⟩ := hv
      · rfl
      · simp only [hname, hv, hv', if_true]
        rfl
    · rw [if_neg hname] at hv
      rw [if_neg hname, if_neg hname, redactAt_of_agree (depth + 1) v v' hv]
  | [], _ :: _, h | _ :: _, [], h => by simp [AgreeFields] at h

theorem redactItems_of_agree (depth : ℕ) : ∀ items items' : List Json,
    AgreeItems items items' → redactItems depth items = redactItems depth items'
  | [], [], _ => rfl
  | v :: items, v' :: items', h => by
    rw [redactItems, redactItems, redactAt_of_agree (depth + 1) v v' h.1,
      redactItems_of_agree depth items items' h.2]
  | [], _ :: _, h | _ :: _, [], h => by simp [AgreeItems] at h

end

/-! ## Redacting again -/

theorem redactAt_of_le {d : ℕ} (h : 32 ≤ d) (v : Json) : redactAt d v = .str redacted := by
  cases v <;> simp only [redactAt, h, if_true]

mutual

theorem redactAt_twice (d k : ℕ) (v : Json) :
    redactAt (d + k) (redactAt d v) = redactAt (d + k) v := by
  by_cases hk : 32 ≤ d + k
  · rw [redactAt_of_le hk, redactAt_of_le hk]
  · have hd : ¬ 32 ≤ d := by omega
    cases v with
    | obj fields => simp only [redactAt, hk, hd, if_false, redactFields_twice]
    | arr items => simp only [redactAt, hk, hd, if_false, redactItems_twice]
    | _ => simp only [redactAt, hd, if_false]

theorem redactFields_twice (d k : ℕ) : ∀ fields : List (Text × Json),
    redactFields (d + k) (redactFields d fields) = redactFields (d + k) fields
  | [] => rfl
  | (name, v) :: fields => by
    have hv := redactAt_twice (d + 1) k v
    rw [Nat.add_right_comm] at hv
    simp only [redactFields, redactFields_twice d k fields]
    split
    · split <;> rfl
    · rw [hv]

theorem redactItems_twice (d k : ℕ) : ∀ items : List Json,
    redactItems (d + k) (redactItems d items) = redactItems (d + k) items
  | [] => rfl
  | v :: items => by
    have hv := redactAt_twice (d + 1) k v
    rw [Nat.add_right_comm] at hv
    simp only [redactItems, hv, redactItems_twice d k items]

end

/-- **What was redacted is redacted like the value itself**, at any depth. -/
theorem redaction_again (depth : ℕ) (v : Json) :
    redactAt depth (redactAuditValue v) = redactAt depth v := by
  have h := redactAt_twice 0 depth v
  rwa [Nat.zero_add] at h

/-! ## Leaving fields out -/

/-- An object without the named fields. -/
def strip (names : List Text) : Json → Json
  | .obj fields => .obj (fields.filter fun f => f.1 ∉ names)
  | v => v

theorem redactFields_filter (depth : ℕ) (names : List Text) (fields : List (Text × Json)) :
    redactFields depth (fields.filter fun f => f.1 ∉ names) =
      (redactFields depth fields).filter fun f => f.1 ∉ names := by
  induction fields with
  | nil => rfl
  | cons f fields ih =>
    obtain ⟨name, v⟩ := f
    by_cases hname : name ∈ names
    · rw [redactFields, List.filter_cons_of_neg (by simpa using hname),
        List.filter_cons_of_neg (by simpa using hname), ih]
    · rw [redactFields, List.filter_cons_of_pos (by simpa using hname),
        List.filter_cons_of_pos (by simpa using hname), redactFields, ih]

/-- Leaving fields out and redaction commute. -/
theorem redactAt_strip (depth : ℕ) (names : List Text) (v : Json) :
    redactAt depth (strip names v) = strip names (redactAt depth v) := by
  cases v with
  | obj fields =>
    simp only [strip, redactAt]
    split
    · rfl
    · rw [redactFields_filter]
  | arr items =>
    simp only [strip, redactAt]
    split <;> rfl
  | _ =>
    simp only [strip, redactAt]
    split <;> rfl

/-- The fields of an object stand in the order of their names. -/
def Sorted (v : Json) : Prop := v.fields.Pairwise fun f g => f.1 < g.1

theorem map_fst_redactFields (depth : ℕ) (fields : List (Text × Json)) :
    (redactFields depth fields).map Prod.fst = fields.map Prod.fst := by
  induction fields with
  | nil => rfl
  | cons f fields ih => rw [redactFields, List.map_cons, List.map_cons, ih]

theorem Sorted.redactAt {v : Json} (h : Sorted v) (depth : ℕ) : Sorted (redactAt depth v) := by
  cases v with
  | obj fields =>
    rw [Audit.redactAt]
    split
    · exact .nil
    · have hmap : ((redactFields depth fields).map Prod.fst).Pairwise (· < ·) := by
        rw [map_fst_redactFields]
        exact List.pairwise_map.mpr h
      exact List.pairwise_map.mp hmap
  | arr items =>
    simp only [Audit.redactAt]
    split <;> exact .nil
  | _ =>
    simp only [Audit.redactAt]
    split <;> exact .nil

private theorem filter_around {fields : List (Text × Json)}
    (h : fields.Pairwise fun f g => f.1 < g.1) (name : Text) :
    fields.filter (fun f => f.1 < name) ++ fields.filter (fun f => name < f.1) =
      fields.filter fun f => f.1 ≠ name := by
  induction h with
  | nil => rfl
  | cons hlt _ ih =>
    rename_i f fields _
    obtain hf | rfl | hf := lt_trichotomy f.1 name
    · simpa [hf, hf.not_gt, hf.ne] using ih
    · have hbelow : fields.filter (fun g => g.1 < f.1) = [] :=
        List.filter_eq_nil_iff.mpr fun g hg => by simpa using (hlt g hg).le
      rw [hbelow] at ih
      simpa [List.filter_cons, hbelow] using ih
    · have hbelow : fields.filter (fun g => g.1 < name) = [] :=
        List.filter_eq_nil_iff.mpr fun g hg => by simpa using (hf.trans (hlt g hg)).le
      rw [hbelow] at ih
      simpa [List.filter_cons, hf, hf.not_gt, hf.ne', hbelow] using ih

theorem Sorted.setField {v : Json} (h : Sorted v) (name : Text) (new : Json) :
    Sorted (v.setField name new) := by
  cases v with
  | obj fields =>
    refine List.pairwise_append.mpr ⟨h.filter _, List.pairwise_cons.mpr ⟨?_, h.filter _⟩, ?_⟩
    · exact fun g hg => of_decide_eq_true (List.mem_filter.mp hg).2
    · intro f hf g hg
      have hlt : f.1 < name := of_decide_eq_true (List.mem_filter.mp hf).2
      obtain rfl | hg := List.mem_cons.mp hg
      · exact hlt
      · exact hlt.trans (of_decide_eq_true (List.mem_filter.mp hg).2)
  | null => exact List.pairwise_singleton _ _
  | _ => exact h

/-- A field that is left out does not matter. -/
theorem strip_setField {names : List Text} {name : Text} (hname : name ∈ names)
    {fields : List (Text × Json)} (h : Sorted (.obj fields)) (new : Json) :
    strip names ((Json.obj fields).setField name new) = strip names (.obj fields) := by
  have hne : (fields.filter fun f => f.1 ≠ name).filter (fun f => f.1 ∉ names) =
      fields.filter fun f => f.1 ∉ names := by
    rw [List.filter_filter]
    refine List.filter_congr fun f _ => ?_
    by_cases hf : f.1 = name <;> simp [hf, hname]
  have haround := filter_around (show fields.Pairwise fun f g => f.1 < g.1 from h) name
  simp only [Json.setField, strip, List.filter_append, List.filter_cons, hname, not_true,
    decide_false, Bool.false_eq_true, if_false]
  rw [← List.filter_append, haround, hne]

end RiAuth.Audit
