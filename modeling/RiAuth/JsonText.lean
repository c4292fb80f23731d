import RiAuth.Basic

/-!
# A text for every value

The source digests the text of a value. What matters of the text is that no two values share it.

* `Json.text`: a text that can be read in one way only;
* **`Json.text_injective`**: different values have different texts.
-/

namespace RiAuth

/-! ## Numbers and strings -/

/-- A number as strokes, with an end mark. -/
def tally : ℕ → Text
  | 0 => ['.']
  | n + 1 => '|' :: tally n

theorem tally_append_inj {m n : ℕ} {rest rest' : Text} (h : tally m ++ rest = tally n ++ rest') :
    m = n ∧ rest = rest' := by
  induction m generalizing n with
  | zero =>
    cases n with
    | zero => exact ⟨rfl, (List.cons.inj h).2⟩
    | succ n => exact absurd (List.cons.inj h).1 (by decide)
  | succ m ih =>
    cases n with
    | zero => exact absurd (List.cons.inj h).1 (by decide)
    | succ n =>
      obtain ⟨rfl, hrest⟩ := ih (List.cons.inj h).2
      exact ⟨rfl, hrest⟩

/-- A string after its length. -/
def quoted (s : Text) : Text := tally s.length ++ s

theorem quoted_append_inj {s s' rest rest' : Text} (h : quoted s ++ rest = quoted s' ++ rest') :
    s = s' ∧ rest = rest' := by
  rw [quoted, quoted, List.append_assoc, List.append_assoc] at h
  obtain ⟨hlength, hrest⟩ := tally_append_inj h
  exact List.append_inj hrest hlength

/-! ## Values -/

namespace Json

mutual

/-- The text of a value: a letter for its kind, and its parts. -/
def text : Json → Text
  | null => ['n']
  | bool b => ['b', if b then '1' else '0']
  | int (.ofNat n) => 'p' :: tally n
  | int (.negSucc n) => 'm' :: tally n
  | float bits => 'f' :: tally bits
  | str s => 's' :: quoted s
  | arr items => 'a' :: textItems items
  | obj fields => 'o' :: textFields fields

/-- The items of an array, each after a comma. -/
def textItems : List Json → Text
  | [] => ['.']
  | item :: items => ',' :: (text item ++ textItems items)

/-- The fields of an object, each after a comma. -/
def textFields : List (Text × Json) → Text
  | [] => ['.']
  | (name, value) :: fields => ',' :: (quoted name ++ (text value ++ textFields fields))

end

mutual

theorem text_append_inj : ∀ (a b : Json) {rest rest' : Text},
    a.text ++ rest = b.text ++ rest' → a = b ∧ rest = rest'
  | null, b, _, _, h => by
    match b with
    | null => exact ⟨rfl, (List.cons.inj h).2⟩
    | bool _ | int (.ofNat _) | int (.negSucc _) | float _ | str _ | arr _ | obj _ =>
      exact absurd (List.cons.inj h).1 (by decide)
  | bool c, b, _, _, h => by
    match b with
    | bool c' =>
      have h := (List.cons.inj h).2
      cases c <;> cases c' <;> first
        | exact ⟨rfl, (List.cons.inj h).2⟩
        | exact absurd (List.cons.inj h).1 (by decide)
    | null | int (.ofNat _) | int (.negSucc _) | float _ | str _ | arr _ | obj _ =>
      exact absurd (List.cons.inj h).1 (by decide)
  | int (.ofNat n), b, _, _, h => by
    match b with
    | int (.ofNat n') =>
      exact (tally_append_inj (List.cons.inj h).2).imp_left (congrArg fun n => int (.ofNat n))
    | null | bool _ | int (.negSucc _) | float _ | str _ | arr _ | obj _ =>
      exact absurd (List.cons.inj h).1 (by decide)
  | int (.negSucc n), b, _, _, h => by
    match b with
    | int (.negSucc n') =>
      exact (tally_append_inj (List.cons.inj h).2).imp_left (congrArg fun n => int (.negSucc n))
    | null | bool _ | int (.ofNat _) | float _ | str _ | arr _ | obj _ =>
      exact absurd (List.cons.inj h).1 (by decide)
  | float n, b, _, _, h => by
    match b with
    | float n' => exact (tally_append_inj (List.cons.inj h).2).imp_left (congrArg float)
    | null | bool _ | int (.ofNat _) | int (.negSucc _) | str _ | arr _ | obj _ =>
      exact absurd (List.cons.inj h).1 (by decide)
  | str s, b, _, _, h => by
    match b with
    | str s' => exact (quoted_append_inj (List.cons.inj h).2).imp_left (congrArg str)
    | null | bool _ | int (.ofNat _) | int (.negSucc _) | float _ | arr _ | obj _ =>
      exact absurd (List.cons.inj h).1 (by decide)
  | arr items, b, _, _, h => by
    match b with
    | arr items' =>
      exact (textItems_append_inj items items' (List.cons.inj h).2).imp_left (congrArg arr)
    | null | bool _ | int (.ofNat _) | int (.negSucc _) | float _ | str _ | obj _ =>
      exact absurd (List.cons.inj h).1 (by decide)
  | obj fields, b, _, _, h => by
    match b with
    | obj fields' =>
      exact (textFields_append_inj fields fields' (List.cons.inj h).2).imp_left (congrArg obj)
    | null | bool _ | int (.ofNat _) | int (.negSucc _) | float _ | str _ | arr _ =>
      exact absurd (List.cons.inj h).1 (by decide)

theorem textItems_append_inj : ∀ (a b : List Json) {rest rest' : Text},
    textItems a ++ rest = textItems b ++ rest' → a = b ∧ rest = rest'
  | [], [], _, _, h => ⟨rfl, (List.cons.inj h).2⟩
  | [], _ :: _, _, _, h => absurd (List.cons.inj h).1 (by decide)
  | _ :: _, [], _, _, h => absurd (List.cons.inj h).1 (by decide)
  | a :: as, b :: bs, _, _, h => by
    simp only [textItems, List.cons_append, List.append_assoc, List.cons.injEq, true_and] at h
    obtain ⟨rfl, hitems⟩ := text_append_inj a b h
    obtain ⟨rfl, hrest⟩ := textItems_append_inj as bs hitems
    exact ⟨rfl, hrest⟩

theorem textFields_append_inj : ∀ (a b : List (Text × Json)) {rest rest' : Text},
    textFields a ++ rest = textFields b ++ rest' → a = b ∧ rest = rest'
  | [], [], _, _, h => ⟨rfl, (List.cons.inj h).2⟩
  | [], _ :: _, _, _, h => absurd (List.cons.inj h).1 (by decide)
  | _ :: _, [], _, _, h => absurd (List.cons.inj h).1 (by decide)
  | (k, a) :: as, (l, b) :: bs, _, _, h => by
    simp only [textFields, List.cons_append, List.append_assoc, List.cons.injEq, true_and] at h
    obtain ⟨rfl, hvalue⟩ := quoted_append_inj h
    obtain ⟨rfl, hfields⟩ := text_append_inj a b hvalue
    obtain ⟨rfl, hrest⟩ := textFields_append_inj as bs hfields
    exact ⟨rfl, hrest⟩

end

theorem text_injective : Function.Injective text := by
  intro a b h
  exact (text_append_inj a b (congrArg (· ++ []) h)).1

end Json

end RiAuth
