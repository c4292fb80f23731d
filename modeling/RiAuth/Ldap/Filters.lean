import RiAuth.Basic

/-!
# LDAP filters

A filter is evaluated on an entry of the directory. A substring filter is matched from left to
right: its initial part, each middle part at its first occurrence, its final part at the end of what
is left.

* `matchesFilter`: a filter on an entry;
* `Written`: a value is the parts of a pattern in order, with gaps;
* **`substring_complete`**: matching from left to right finds every such value, and no other.
-/

namespace RiAuth.Ldap

/-! ## Rows -/

/-- An attribute with its values, as bytes. -/
structure Attribute where
  atype : Text
  vals : List (List UInt8)

/-- An entry as a search sees it. -/
structure Row where
  dn : Text
  attributes : List Attribute

/-- What texts are compared with: `str::from_utf8` and `to_lowercase`. -/
structure Letters where
  fromUtf8 : List UInt8 → Option Text
  lower : Text → Text

/-- The values of an attribute that are texts, whatever the case of its name. -/
def Row.values (letters : Letters) (row : Row) (name : Text) : List Text :=
  ((row.attributes.filter fun a => eqIgnoreAsciiCase a.atype name).flatMap
    Attribute.vals).filterMap letters.fromUtf8

/-! ## Filters -/

/-- A pattern with gaps. -/
structure Substring where
  initial : Option Text
  any : List Text
  final : Option Text

/-- A decoded search filter. -/
inductive Filter where
  | and (filters : List Filter)
  | or (filters : List Filter)
  | not (filter : Filter)
  | equality (name value : Text)
  | present (name : Text)
  | substring (name : Text) (pattern : Substring)
  /-- The other kinds, which match nothing. -/
  | other

/-- What follows the first occurrence of a text: `find`, and the rest from its end on. -/
def afterFirst (needle : Text) : Text → Option Text
  | [] => if needle = [] then some [] else none
  | c :: s => if needle <+: c :: s then some ((c :: s).drop needle.length) else afterFirst needle s

/-- What follows the initial part. -/
def stripInitial (initial : Option Text) (rest : Text) : Option Text :=
  match initial with
  | none => some rest
  | some first => if first <+: rest then some (rest.drop first.length) else none

/-- What follows the middle parts, in turn. -/
def afterMiddles : List Text → Text → Option Text
  | [], rest => some rest
  | middle :: any, rest => (afterFirst middle rest).bind (afterMiddles any)

/-- A pattern on a value, both in lower case. -/
def Substring.matchesValue (pattern : Substring) (value : Text) : Bool :=
  ((stripInitial pattern.initial value).bind (afterMiddles pattern.any)).any fun rest =>
    pattern.final.all fun last => last <:+ rest

/-- The pattern in lower case. -/
def Substring.lower (letters : Letters) (pattern : Substring) : Substring where
  initial := pattern.initial.map letters.lower
  any := pattern.any.map letters.lower
  final := pattern.final.map letters.lower

mutual

/-- Whether a row satisfies a filter. -/
def matchesFilter (letters : Letters) (row : Row) : Filter → Bool
  | .and filters => matchesAll letters row filters
  | .or filters => matchesAny letters row filters
  | .not filter => !matchesFilter letters row filter
  | .equality name expected =>
    (row.values letters name).any fun v => letters.lower v = letters.lower expected
  | .present name => !(row.values letters name).isEmpty
  | .substring name pattern =>
    (row.values letters name).any fun v => (pattern.lower letters).matchesValue (letters.lower v)
  | .other => false

/-- Whether it satisfies each of them. -/
def matchesAll (letters : Letters) (row : Row) : List Filter → Bool
  | [] => true
  | filter :: filters => matchesFilter letters row filter && matchesAll letters row filters

/-- Whether it satisfies one of them. -/
def matchesAny (letters : Letters) (row : Row) : List Filter → Bool
  | [] => false
  | filter :: filters => matchesFilter letters row filter || matchesAny letters row filters

end

/-! ## Matching from left to right -/

/-- The middle parts in order, each after a gap. -/
def spread (gaps middles : List Text) : Text := (List.zipWith (· ++ ·) gaps middles).flatten

/-- A value is the parts of a pattern in order, with gaps between them and no overlap. -/
def Written (pattern : Substring) (value : Text) : Prop :=
  ∃ gaps gap, gaps.length = pattern.any.length ∧
    value = pattern.initial.getD [] ++ spread gaps pattern.any ++ gap ++ pattern.final.getD []

variable {s rest : Text}

/-- What follows the first occurrence follows some occurrence. -/
theorem afterFirst_eq {needle : Text} (h : afterFirst needle s = some rest) :
    ∃ gap, s = gap ++ needle ++ rest := by
  induction s with
  | nil =>
    simp only [afterFirst] at h
    split_ifs at h with hn
    exact ⟨[], by rw [hn, ← Option.some.inj h]; rfl⟩
  | cons c s ih =>
    simp only [afterFirst] at h
    split_ifs at h with hn
    · obtain ⟨tail, htail⟩ := hn
      refine ⟨[], ?_⟩
      rw [← Option.some.inj h, ← htail, List.drop_left, List.nil_append]
    · obtain ⟨gap, hgap⟩ := ih h
      exact ⟨c :: gap, by rw [hgap, List.cons_append, List.cons_append]⟩

/-- The first occurrence leaves at least what any occurrence leaves. -/
theorem afterFirst_of_occurs (gap needle rest : Text) :
    ∃ rest', afterFirst needle (gap ++ needle ++ rest) = some rest' ∧ rest <:+ rest' := by
  induction gap with
  | nil =>
    refine ⟨rest, ?_, List.suffix_refl rest⟩
    rw [List.nil_append]
    cases hs : needle ++ rest with
    | nil =>
      obtain ⟨rfl, rfl⟩ := List.append_eq_nil_iff.1 hs
      rfl
    | cons c s => rw [afterFirst, if_pos ⟨rest, hs⟩, ← hs, List.drop_left]
  | cons c gap ih =>
    rw [List.cons_append, List.cons_append, afterFirst]
    split_ifs with hn
    · -- an occurrence further left leaves more
      refine ⟨_, rfl, ?_⟩
      have hrest : rest =
          ((c :: (gap ++ needle ++ rest)).drop needle.length).drop (gap.length + 1) := by
        rw [List.drop_drop, ← List.cons_append, show needle.length + (gap.length + 1) =
          (c :: (gap ++ needle)).length by simp; omega, List.drop_left]
      conv_lhs => rw [hrest]
      exact List.drop_suffix _ _
    · exact ih

theorem afterMiddles_eq {middles : List Text} (h : afterMiddles middles s = some rest) :
    ∃ gaps, gaps.length = middles.length ∧ s = spread gaps middles ++ rest := by
  induction middles generalizing s with
  | nil => exact ⟨[], rfl, Option.some.inj h⟩
  | cons middle middles ih =>
    obtain ⟨s', hs', hrest⟩ := Option.bind_eq_some_iff.1 h
    obtain ⟨gap, rfl⟩ := afterFirst_eq hs'
    obtain ⟨gaps, hlength, rfl⟩ := ih hrest
    refine ⟨gap :: gaps, by simp [hlength], ?_⟩
    simp [spread]

/-- More text to the left does not hide the middle parts: each is found where it was, or earlier. -/
theorem afterMiddles_of_suffix {middles gaps : List Text} (hlength : gaps.length = middles.length)
    (hs : spread gaps middles ++ rest <:+ s) :
    ∃ rest', afterMiddles middles s = some rest' ∧ rest <:+ rest' := by
  induction middles generalizing gaps s with
  | nil =>
    obtain rfl := List.length_eq_zero_iff.1 hlength
    exact ⟨s, rfl, hs⟩
  | cons middle middles ih =>
    obtain ⟨gap, gaps, rfl⟩ := List.exists_cons_of_length_eq_add_one hlength
    obtain ⟨more, rfl⟩ := hs
    have hoccurs : more ++ (spread (gap :: gaps) (middle :: middles) ++ rest) =
        (more ++ gap) ++ middle ++ (spread gaps middles ++ rest) := by
      simp [spread]
    obtain ⟨s', hs', hsuffix⟩ :=
      afterFirst_of_occurs (more ++ gap) middle (spread gaps middles ++ rest)
    obtain ⟨rest', hrest', hrest⟩ := ih (by simpa using hlength) hsuffix
    refine ⟨rest', ?_, hrest⟩
    rw [afterMiddles, hoccurs, hs']
    exact hrest'

theorem stripInitial_eq_some {initial : Option Text} :
    stripInitial initial s = some rest ↔ s = initial.getD [] ++ rest := by
  cases initial with
  | none => exact ⟨Option.some.inj, fun h => h ▸ rfl⟩
  | some first =>
    simp only [stripInitial, Option.getD_some]
    constructor
    · intro h
      split_ifs at h with hn
      obtain ⟨tail, rfl⟩ := hn
      rw [List.drop_left] at h
      rw [Option.some.inj h]
    · rintro rfl
      rw [if_pos (List.prefix_append first rest), List.drop_left]

/-- Matching a value from left to right is complete: the leftmost placement of the middle parts
leaves room for the final part if any placement does. -/
theorem Substring.matchesValue_iff (pattern : Substring) (value : Text) :
    pattern.matchesValue value = true ↔ Written pattern value := by
  unfold Substring.matchesValue
  rw [Option.any_eq_true]
  constructor
  · rintro ⟨rest, hrest, hfinal⟩
    obtain ⟨s, hs, hmiddles⟩ := Option.bind_eq_some_iff.1 hrest
    obtain rfl := stripInitial_eq_some.1 hs
    obtain ⟨gaps, hlength, rfl⟩ := afterMiddles_eq hmiddles
    cases hlast : pattern.final with
    | none => exact ⟨gaps, rest, hlength, by simp [hlast]⟩
    | some last =>
      rw [hlast] at hfinal
      obtain ⟨gap, rfl⟩ := of_decide_eq_true hfinal
      exact ⟨gaps, gap, hlength, by simp [hlast]⟩
  · rintro ⟨gaps, gap, hlength, rfl⟩
    obtain ⟨rest, hrest, hsuffix⟩ := afterMiddles_of_suffix hlength
      (List.suffix_refl (spread gaps pattern.any ++ (gap ++ pattern.final.getD [])))
    refine ⟨rest, Option.bind_eq_some_iff.2 ⟨_, stripInitial_eq_some.2 ?_, hrest⟩, ?_⟩
    · simp
    · cases hlast : pattern.final with
      | none => rfl
      | some last =>
        rw [hlast] at hsuffix
        exact decide_eq_true ((List.suffix_append gap last).trans hsuffix)

/-- **Substring matching is complete.** An entry matches exactly if some value of the attribute, in
lower case, is the parts of the pattern in order, with gaps and no overlap. -/
theorem substring_complete (letters : Letters) (row : Row) (name : Text) (pattern : Substring) :
    matchesFilter letters row (.substring name pattern) = true ↔
      ∃ v ∈ row.values letters name, Written (pattern.lower letters) (letters.lower v) := by
  rw [matchesFilter, List.any_eq_true]
  simp only [Substring.matchesValue_iff]

end RiAuth.Ldap
