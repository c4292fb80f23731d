import Mathlib.Order.WithBot
import RiAuth.Lib.Pages
import RiAuth.Lib.Window
import RiAuth.Scim.Filters
import RiAuth.Scim.Writes

/-!
# SCIM lists

A list request reads the records of a kind in pages, keeps those that its owner may see and that
match the filter, and answers with a part of them. In the order of the ids the part is cut out on
the way. In any other order only as many candidates are kept as the part can reach.

* `compareSort`, `precedes`: the order of a list;
* `visit`, `scimList`: one record of the loop, and a request;
* `listing`: all that a request is about, in order;
* **`scimList_slices`**: a page is a part of the listing, and consecutive pages make it up.
-/

namespace RiAuth.Scim

open Checks OrdMap

/-! ## Sort keys -/

/-- A field that a list is sorted by. -/
inductive SortField where
  | id
  | externalId
  | userName
  | displayName
  | active
  | emailValue
  | nameFormatted
  | nameGiven
  | nameFamily
deriving DecidableEq

/-- The order that is asked for. -/
structure SortSpec where
  field : SortField
  descending : Bool
deriving DecidableEq

/-- The most resources sorted. -/
def MAX_SORT_CANDIDATES : ℕ := 4096

/-- The field a request sorts by. -/
def readSortField (kind : Kind) (key : Text) : Option SortField :=
  match kind, String.ofList (key.map Char.toLower) with
  | _, "id" => some .id
  | _, "externalid" => some .externalId
  | _, "displayname" => some .displayName
  | .users, "username" => some .userName
  | .users, "active" => some .active
  | .users, "emails.value" => some .emailValue
  | .users, "name.formatted" => some .nameFormatted
  | .users, "name.givenname" => some .nameGiven
  | .users, "name.familyname" => some .nameFamily
  | _, _ => none

/-- Whether the order is descending. -/
def readSortOrder : Option Text → Result Bool
  | none => .ok false
  | some order =>
    if eqIgnoreAsciiCase order "ascending".toList then .ok false
    else if eqIgnoreAsciiCase order "descending".toList then .ok true
    else .error (.bad "Unsupported SCIM sortOrder")

/-- The sorting of a request. -/
def parseSort (kind : Kind) (sortBy order : Option Text) : Result (Option SortSpec) :=
  match sortBy with
  | none => do
    require (order = none) (.bad "sortOrder requires sortBy")
    .ok none
  | some key => do
    require (Text.bytes key ≤ 64 ∧ order.all (fun o => Text.bytes o ≤ 16) = true)
      (.bad "Unsupported SCIM sort parameters")
    let field ← okOr (readSortField kind key) (.bad "Unsupported SCIM sortBy attribute")
    let descending ← readSortOrder order
    .ok (some ⟨field, descending⟩)

/-- What two resources are compared by. -/
inductive SortKey where
  | text (s : Text)
  | bool (b : Bool)

/-- The primary address, or the first one. -/
def sortEmail (value : Json) : Option Text :=
  let emails := items value "emails".toList
  ((emails.find? fun e => e.field "primary".toList = .bool true).orElse fun _ => emails.head?).bind
    fun e => (e.field "value".toList).asStr

/-- The text that is compared. -/
def sortText (value : Json) : SortField → Option Text
  | .id => (value.field "id".toList).asStr
  | .externalId => (value.field "externalId".toList).asStr
  | .userName => (value.field "userName".toList).asStr
  | .displayName => (value.field "displayName".toList).asStr
  | .emailValue => sortEmail value
  | .nameFormatted => ((value.field "name".toList).field "formatted".toList).asStr
  | .nameGiven => ((value.field "name".toList).field "givenName".toList).asStr
  | .nameFamily => ((value.field "name".toList).field "familyName".toList).asStr
  | .active => none

/-- What is compared, if there is any. -/
def sortKey (value : Json) (field : SortField) : Option SortKey :=
  if field = .active then (value.field "active".toList).asBool.map .bool
  else ((sortText value field).filter fun s => s ≠ []).map .text

section

/-! ## The order -/

/-- `cmp`. -/
def order {α : Type} [LinearOrder α] (a b : α) : Ordering :=
  if a < b then .lt else if a = b then .eq else .gt

-- `str::to_lowercase`
variable (lower : Text → Text)

/-- The order of two keys of one field. A missing key is last, and first in descending order. -/
def compareKeys (spec : SortSpec) : Option SortKey → Option SortKey → Ordering
  | none, none => .eq
  | none, some _ => if spec.descending then .lt else .gt
  | some _, none => if spec.descending then .gt else .lt
  | some (.bool a), some (.bool b) => if spec.descending then order b a else order a b
  | some (.text a), some (.text b) =>
    let texts := if spec.field = .id ∨ spec.field = .externalId then order a b
      else order (lower a) (lower b)
    if spec.descending then texts.swap else texts
  | _, _ => .eq

/-- The id of a value. A missing one is first. -/
def idOf (value : Json) : WithBot Text :=
  (value.field "id".toList).asStr.elim ⊥ fun s => (s : WithBot Text)

/-- Ids break ties, in either direction. -/
def compareSort (left right : Json) (spec : SortSpec) : Ordering :=
  (compareKeys lower spec (sortKey left spec.field) (sortKey right spec.field)).then
    (order (idOf left) (idOf right))

/-! ## The loop -/

variable (v : Env) (actor : Actor) (t : Tables) (kind : Kind)

/-- The fields that filters and sort keys look at. An assignment to a field of anything but an
object (or nothing) stops the request. -/
def scimFilterView (id : Text) (r : Record) : Result Json := do
  require (r.data.isObj = true ∨ r.data = .null) .internal
  let value := r.data.setField "id".toList (.str id)
  match r.kind with
  | .users => do
    let user ← okOr (t.users.get? r.localId) (.missing "User missing")
    withUser v value user
  | .groups => do
    let _ ← okOr (t.groups.get? r.localId) (.missing "Group missing")
    .ok value

/-- What a request asks for, read and bounded. -/
structure Plan where
  filter : Option FilterExpr
  sort : Option SortSpec
  start : ℕ
  count : ℕ

namespace Plan

/-- Whether the order is the table's own. -/
def storeOrder (p : Plan) : Bool := p.sort.all fun spec => spec.field = .id

/-- Whether the table is read backwards. -/
def reverse (p : Plan) : Bool := p.sort.any fun spec => spec.field = .id && spec.descending

/-- How many records the heap keeps. -/
def sortWindow (p : Plan) : ℕ := if p.count = 0 then 0 else min (p.start - 1 + p.count) u64Max

end Plan

/-- A record that waits in the heap, with its sort view. -/
structure SortedRecord where
  id : Text
  record : Record
  value : Json

/-- The heap stands for its elements in ascending order. -/
structure Progress where
  total : ℕ
  page : List (Text × Record)
  heap : List SortedRecord

/-- The order of the heap. Without a sort key nothing waits in it. -/
def heapOrder (sort : Option SortSpec) (a b : SortedRecord) : Prop :=
  sort.any (fun spec => compareSort lower a.value b.value spec = .lt) = true

instance (sort : Option SortSpec) : DecidableRel (heapOrder lower sort) := fun _ _ =>
  inferInstanceAs (Decidable (_ = true))

/-- One record of the loop. -/
def visit (p : Plan) (s : Progress) (e : Text × Record) : Result Progress :=
  if e.2.deleted = true ∨ e.2.owner ≠ actor.id then .ok s
  else do
    recordBinding kind e.2
    if (actor.require kind "read" (name e.2)).isOk = false then .ok s
    else if p.storeOrder then do
      let matched ← (if p.sort.isSome then do
          let value ← scimFilterView v t e.1 e.2
          .ok (p.filter.all fun f => f.matches value)
        else match p.filter with
          | none => .ok true
          | some f => do
            let value ← scimFilterView v t e.1 e.2
            .ok (f.matches value) : Result Bool)
      .ok (if matched then
          { s with
            total := s.total + 1
            page := if p.start ≤ s.total + 1 ∧ s.page.length < p.count then s.page ++ [e] else s.page }
        else s)
    else do
      let value ← scimFilterView v t e.1 e.2
      .ok (if p.filter.all fun f => f.matches value then
          { s with
            total := s.total + 1
            heap := if p.sortWindow ≠ 0 then
                Window.keep (heapOrder lower p.sort) p.sortWindow s.heap ⟨e.1, e.2, value⟩
              else s.heap }
        else s)

/-- The parameters of a list. -/
structure Query where
  filter : Option Text
  sortBy : Option Text
  sortOrder : Option Text
  startIndex : Option ℕ
  count : Option ℕ

/-- The answer to a list. -/
structure Listing where
  totalResults : ℕ
  startIndex : ℕ
  page : List (Text × Record)
  resources : List Json

/-- Pages start at one. -/
def Query.start (q : Query) : ℕ := max (q.startIndex.getD 1) 1

/-- The size of a page, bounded. -/
def Query.size (q : Query) : ℕ := min (q.count.getD 100) 1000

/-- How a request is answered. -/
def Query.plan (q : Query) : Result Plan := do
  let filter ← (match q.filter with
    | none => .ok none
    | some filter => (parseFilter kind filter).map some : Result (Option FilterExpr))
  let sort ← parseSort kind q.sortBy q.sortOrder
  .ok ⟨filter, sort, q.start, q.size⟩

/-- A list request. How the selected records are shown is left open. -/
def scimList (render : List (Text × Record) → Result (List Json)) (q : Query) : Result Listing := do
  let p ← q.plan kind
  require (p.storeOrder = true ∨ p.sortWindow ≤ MAX_SORT_CANDIDATES)
    (.bad ("Non-id SCIM sort requires at most 4096 candidates (startIndex - 1 + count); " ++
      "reduce the page range or sortBy=id"))
  let s ← forPages 128 ((t.bucket kind).page p.reverse 128) (visit lower v actor t kind p)
    ((t.bucket kind).entries.length + 1) none ⟨0, [], []⟩
  let page := if p.storeOrder then s.page
    else ((s.heap.drop (p.start - 1)).take p.count).map fun c => (c.id, c.record)
  let resources ← render page
  .ok ⟨s.total, p.start, page, resources⟩

end

/-! ## A strict order -/

section

variable {lower : Text → Text} {spec : SortSpec}

/-- The text that a key is compared by. -/
def place (lower : Text → Text) (spec : SortSpec) : SortKey → Text
  | .bool b => if b then ['t'] else []
  | .text s => if spec.field = .id ∨ spec.field = .externalId then s else lower s

/-- Where a value stands: by its key, or at the end. -/
def rank (lower : Text → Text) (spec : SortSpec) (value : Json) : WithTop Text :=
  (sortKey value spec.field).elim ⊤ fun key => (place lower spec key : WithTop Text)

theorem sortKey_bool {value : Json} {field : SortField} {b : Bool}
    (h : sortKey value field = some (.bool b)) : field = .active := by
  unfold sortKey at h
  split_ifs at h with hactive
  · exact hactive
  · obtain ⟨s, -, hs⟩ := Option.map_eq_some_iff.mp h
    cases hs

theorem sortKey_text {value : Json} {field : SortField} {s : Text}
    (h : sortKey value field = some (.text s)) : field ≠ .active := by
  unfold sortKey at h
  split_ifs at h with hactive
  · obtain ⟨b, -, hb⟩ := Option.map_eq_some_iff.mp h
    cases hb
  · exact hactive

section

variable {α : Type} [LinearOrder α] {a b : α}

theorem order_eq_lt : order a b = .lt ↔ a < b := by
  unfold order
  split_ifs with hlt heq
  · simp [hlt]
  · simp [hlt]
  · simp [hlt]

theorem order_eq_eq : order a b = .eq ↔ a = b := by
  unfold order
  split_ifs with hlt heq
  · simp [hlt.ne]
  · simp [heq]
  · simp [heq]

theorem order_eq_gt : order a b = .gt ↔ b < a := by
  unfold order
  split_ifs with hlt heq
  · simp [hlt.not_gt]
  · simp [heq]
  · simpa using lt_of_le_of_ne (not_lt.mp hlt) (Ne.symm heq)

theorem order_swap (a b : α) : (order a b).swap = order b a := by
  obtain hlt | rfl | hlt := lt_trichotomy a b
  · rw [order_eq_lt.mpr hlt, order_eq_gt.mpr hlt, Ordering.swap]
  · rw [order_eq_eq.mpr rfl, Ordering.swap]
  · rw [order_eq_gt.mpr hlt, order_eq_lt.mpr hlt, Ordering.swap]

end

theorem order_bool (a b : Bool) :
    order a b = order (if a then ['t'] else [] : Text) (if b then ['t'] else []) := by
  cases a <;> cases b <;> decide

theorem order_coe (a b : Text) : order (a : WithTop Text) b = order a b := by
  simp only [order, WithTop.coe_lt_coe, WithTop.coe_inj]
  split_ifs <;> rfl

/-- Keys are compared by where they stand. -/
theorem compareKeys_eq (left right : Json) :
    compareKeys lower spec (sortKey left spec.field) (sortKey right spec.field) =
      if spec.descending then order (rank lower spec right) (rank lower spec left)
      else order (rank lower spec left) (rank lower spec right) := by
  have htop : ∀ key, (place lower spec key : WithTop Text) < ⊤ := fun key => WithTop.coe_lt_top _
  unfold rank
  cases hleft : sortKey left spec.field with
  | none =>
    cases hright : sortKey right spec.field with
    | none =>
      rw [Option.elim_none, order_eq_eq.mpr rfl, ite_self]
      rfl
    | some key =>
      rw [Option.elim_none, Option.elim_some, order_eq_lt.mpr (htop key),
        order_eq_gt.mpr (htop key)]
      rfl
  | some key =>
    cases hright : sortKey right spec.field with
    | none =>
      rw [Option.elim_none, Option.elim_some, order_eq_lt.mpr (htop key),
        order_eq_gt.mpr (htop key)]
      cases key <;> rfl
    | some key' =>
      rw [Option.elim_some, Option.elim_some, order_coe, order_coe]
      cases key with
      | bool a =>
        cases key' with
        | bool b => rw [compareKeys, place, place, ← order_bool, ← order_bool]
        | text s => exact absurd (sortKey_bool hleft) (sortKey_text hright)
      | text s =>
        cases key' with
        | bool b => exact absurd (sortKey_bool hright) (sortKey_text hleft)
        | text s' =>
          rw [compareKeys, place, place]
          split_ifs <;> simp only [order_swap]

/-- **The order of two values**: by where they stand, and then by their ids. -/
theorem compareSort_lt {left right : Json} :
    compareSort lower left right spec = .lt ↔
      (if spec.descending then rank lower spec right < rank lower spec left
        else rank lower spec left < rank lower spec right) ∨
      rank lower spec left = rank lower spec right ∧ idOf left < idOf right := by
  unfold compareSort
  rw [Ordering.then_eq_lt, compareKeys_eq]
  split_ifs
  · rw [order_eq_lt, order_eq_lt, order_eq_eq, eq_comm (a := rank lower spec right)]
  · rw [order_eq_lt, order_eq_lt, order_eq_eq]

theorem compareSort_irrefl (value : Json) : compareSort lower value value spec ≠ .lt := by
  rw [Ne, compareSort_lt]
  split_ifs <;> simp

theorem compareSort_trans {a b c : Json} (h₁ : compareSort lower a b spec = .lt)
    (h₂ : compareSort lower b c spec = .lt) : compareSort lower a c spec = .lt := by
  rw [compareSort_lt] at h₁ h₂ ⊢
  split_ifs at h₁ h₂ ⊢
  · obtain h₁ | ⟨heq₁, hid₁⟩ := h₁ <;> obtain h₂ | ⟨heq₂, hid₂⟩ := h₂
    · exact .inl (h₂.trans h₁)
    · exact .inl (heq₂ ▸ h₁)
    · exact .inl (heq₁ ▸ h₂)
    · exact .inr ⟨heq₁.trans heq₂, hid₁.trans hid₂⟩
  · obtain h₁ | ⟨heq₁, hid₁⟩ := h₁ <;> obtain h₂ | ⟨heq₂, hid₂⟩ := h₂
    · exact .inl (h₁.trans h₂)
    · exact .inl (heq₂ ▸ h₁)
    · exact .inl (heq₁ ▸ h₂)
    · exact .inr ⟨heq₁.trans heq₂, hid₁.trans hid₂⟩

/-- Values with different ids are in order. -/
theorem compareSort_total {a b : Json} (h : idOf a ≠ idOf b) :
    compareSort lower a b spec = .lt ∨ compareSort lower b a spec = .lt := by
  rw [compareSort_lt, compareSort_lt]
  have hid := lt_or_gt_of_ne h
  obtain hlt | heq | hlt := lt_trichotomy (rank lower spec a) (rank lower spec b)
  · split_ifs
    · exact .inr (.inl hlt)
    · exact .inl (.inl hlt)
  · obtain hid | hid := hid
    · exact .inl (.inr ⟨heq, hid⟩)
    · exact .inr (.inr ⟨heq.symm, hid⟩)
  · split_ifs
    · exact .inl (.inl hlt)
    · exact .inr (.inl hlt)

end

/-! ## What the loop finds -/

section

variable (lower : Text → Text) (v : Env) (actor : Actor) (t : Tables) (kind : Kind)

/-- The record is one that its owner may see. -/
def visible (e : Text × Record) : Bool :=
  !e.2.deleted && e.2.owner = actor.id && (actor.require kind "read" (name e.2)).isOk

/-- The view that is compared. -/
def sortView (e : Text × Record) : Json := (scimFilterView v t e.1 e.2).toOption.getD .null

/-- The record is visible and matches the filter. -/
def found (filter : Option FilterExpr) (e : Text × Record) : Bool :=
  visible actor kind e && filter.all fun f => (scimFilterView v t e.1 e.2).toOption.any f.matches

/-- The records that a request is about, as the scan meets them. -/
def candidates (p : Plan) : List (Text × Record) :=
  (directed p.reverse (t.bucket kind).entries).filter (found v actor t kind p.filter)

/-- The records that a request is about, in the order that it asks for. -/
def listing (p : Plan) : List (Text × Record) :=
  if p.storeOrder then candidates v actor t kind p
  else (Window.arrange (heapOrder lower p.sort)
    ((candidates v actor t kind p).map fun e => ⟨e.1, e.2, sortView v t e⟩)).map
      fun c => (c.id, c.record)

/-- The order of a listing. -/
def precedes (p : Plan) (a b : Text × Record) : Prop :=
  if p.storeOrder then before p.reverse b.1 a.1 = true
  else p.sort.any (fun spec => compareSort lower (sortView v t a) (sortView v t b) spec = .lt) = true

end

section

variable {lower : Text → Text} {v : Env} {actor : Actor} {t : Tables} {kind : Kind} {p : Plan}
  {s s' : Progress} {e : Text × Record}

/-- What the loop does with a record that it finds. -/
def Progress.add (lower : Text → Text) (v : Env) (t : Tables) (p : Plan) (s : Progress)
    (e : Text × Record) : Progress :=
  if p.storeOrder then
    { s with
      total := s.total + 1
      page := if p.start ≤ s.total + 1 ∧ s.page.length < p.count then s.page ++ [e] else s.page }
  else
    { s with
      total := s.total + 1
      heap := Window.keep (heapOrder lower p.sort) p.sortWindow s.heap ⟨e.1, e.2, sortView v t e⟩ }

variable {value : Json} {q : Query}

theorem found_of_view (hvisible : visible actor kind e = true)
    (h : scimFilterView v t e.1 e.2 = .ok value) (filter : Option FilterExpr) :
    found v actor t kind filter e = filter.all fun f => f.matches value := by
  rw [found, hvisible, h, Bool.true_and]
  rfl

theorem sortView_of_view (h : scimFilterView v t e.1 e.2 = .ok value) : sortView v t e = value := by
  rw [sortView, h]
  rfl

theorem keep_zero (sort : Option SortSpec) {heap : List SortedRecord} (h : heap = [])
    (c : SortedRecord) : Window.keep (heapOrder lower sort) 0 heap c = heap := by
  subst h
  rfl

/-- Without a window the heap stays empty. -/
theorem add_heap (hzero : p.sortWindow = 0) (h : s.heap = []) : (s.add lower v t p e).heap = [] := by
  cases horder : p.storeOrder with
  | true =>
    rw [Progress.add, horder, if_pos rfl]
    exact h
  | false =>
    rw [Progress.add, horder, if_neg Bool.false_ne_true, hzero, keep_zero p.sort h]
    exact h

/-- **One record of the loop**: it is passed over, or it is added. In another order than that of the
ids it has a sort view. -/
theorem visit_ok (h : visit lower v actor t kind p s e = .ok s')
    (hheap : p.sortWindow = 0 → s.heap = []) :
    s' = (if found v actor t kind p.filter e then s.add lower v t p e else s) ∧
      (found v actor t kind p.filter e = true → p.storeOrder = false →
        ∃ value, scimFilterView v t e.1 e.2 = .ok value) := by
  unfold visit at h
  by_cases hskip : e.2.deleted = true ∨ e.2.owner ≠ actor.id
  · rw [if_pos hskip] at h
    cases h
    have hnot : found v actor t kind p.filter e = false := by
      obtain hdeleted | howner := hskip
      · simp [found, visible, hdeleted]
      · simp [found, visible, howner]
    simp [hnot]
  rw [if_neg hskip] at h
  obtain ⟨-, h⟩ := seq_ok.mp h
  rw [not_or, not_not, Bool.not_eq_true] at hskip
  by_cases hread : (actor.require kind "read" (name e.2)).isOk = false
  · rw [if_pos hread] at h
    cases h
    have hnot : found v actor t kind p.filter e = false := by simp [found, visible, hread]
    simp [hnot]
  rw [if_neg hread] at h
  have hvisible : visible actor kind e = true := by
    simp [visible, hskip.1, hskip.2, Bool.not_eq_false _ ▸ hread]
  cases horder : p.storeOrder with
  | true =>
    rw [horder, if_pos rfl] at h
    obtain ⟨matched, hmatched, h⟩ := bind_ok.mp h
    have hfound : found v actor t kind p.filter e = matched := by
      split_ifs at hmatched with hsort
      · obtain ⟨value, hvalue, hmatched⟩ := bind_ok.mp hmatched
        cases hmatched
        exact found_of_view hvisible hvalue p.filter
      · cases hfilter : p.filter with
        | none =>
          rw [hfilter] at hmatched
          cases hmatched
          rw [found, hvisible]
          rfl
        | some f =>
          rw [hfilter] at hmatched
          obtain ⟨value, hvalue, hmatched⟩ := bind_ok.mp hmatched
          cases hmatched
          rw [found_of_view hvisible hvalue]
          rfl
    cases h
    rw [hfound, Progress.add, horder, if_pos rfl]
    exact ⟨rfl, fun _ hnot => nomatch hnot⟩
  | false =>
    rw [horder, if_neg Bool.false_ne_true] at h
    obtain ⟨value, hvalue, h⟩ := bind_ok.mp h
    cases h
    rw [found_of_view hvisible hvalue, Progress.add, horder, if_neg Bool.false_ne_true,
      sortView_of_view hvalue]
    refine ⟨?_, fun _ _ => ⟨value, hvalue⟩⟩
    by_cases hwindow : p.sortWindow = 0
    · rw [if_neg (not_not.mpr hwindow), hwindow, keep_zero p.sort (hheap hwindow)]
    · rw [if_pos hwindow]

/-- The whole loop adds the records that it finds. -/
theorem foldlM_visit {l : List (Text × Record)}
    (h : l.foldlM (visit lower v actor t kind p) s = .ok s') (hheap : p.sortWindow = 0 → s.heap = []) :
    s' = (l.filter (found v actor t kind p.filter)).foldl (Progress.add lower v t p) s ∧
      (p.storeOrder = false → ∀ e ∈ l.filter (found v actor t kind p.filter),
        ∃ value, scimFilterView v t e.1 e.2 = .ok value) := by
  induction l generalizing s with
  | nil =>
    cases h
    exact ⟨rfl, fun _ => by simp⟩
  | cons e l ih =>
    rw [List.foldlM_cons] at h
    obtain ⟨s₁, hfirst, h⟩ := bind_ok.mp h
    obtain ⟨rfl, hview⟩ := visit_ok hfirst hheap
    cases hfound : found v actor t kind p.filter e with
    | false =>
      rw [hfound, if_neg Bool.false_ne_true] at h
      rw [List.filter_cons_of_neg (by simp [hfound])]
      exact ih h hheap
    | true =>
      rw [hfound, if_pos rfl] at h
      rw [List.filter_cons_of_pos hfound]
      obtain ⟨hrest, hviews⟩ := ih h fun hzero => add_heap hzero (hheap hzero)
      exact ⟨hrest, fun horder => List.forall_mem_cons.mpr ⟨hview hfound horder, hviews horder⟩⟩

variable (lower v t) in
/-- In the order of the ids the page is cut out on the way. -/
theorem foldl_add_store (horder : p.storeOrder = true) (hstart : 0 < p.start)
    (l done : List (Text × Record)) :
    l.foldl (Progress.add lower v t p)
        ⟨done.length, (done.drop (p.start - 1)).take p.count, []⟩ =
      ⟨(done ++ l).length, ((done ++ l).drop (p.start - 1)).take p.count, []⟩ := by
  induction l generalizing done with
  | nil => rw [List.append_nil]; rfl
  | cons e l ih =>
    have hstep : Progress.add lower v t p ⟨done.length, (done.drop (p.start - 1)).take p.count, []⟩ e =
        ⟨(done ++ [e]).length, ((done ++ [e]).drop (p.start - 1)).take p.count, []⟩ := by
      rw [Progress.add, horder, if_pos rfl]
      simp only [List.length_append, List.length_singleton, List.length_take, List.length_drop,
        Progress.mk.injEq, true_and, and_true]
      by_cases hreach : p.start ≤ done.length + 1
      · rw [List.drop_append_of_le_length (by omega), List.take_append, List.length_drop]
        by_cases hroom : min p.count (done.length - (p.start - 1)) < p.count
        · rw [if_pos ⟨hreach, hroom⟩, List.take_of_length_le (l := [e]) (by simp; omega)]
        · rw [if_neg fun hboth => hroom hboth.2,
            show p.count - (done.length - (p.start - 1)) = 0 by omega, List.take_zero,
            List.append_nil]
      · rw [if_neg fun hboth => hreach hboth.1, List.drop_eq_nil_of_le (by omega),
          List.drop_eq_nil_of_le (by simp; omega)]
    rw [List.foldl_cons, hstep, ih (done ++ [e]), List.append_assoc]
    rfl

variable (lower v t) in
/-- In another order the first candidates are kept. -/
theorem foldl_add_sorted (horder : p.storeOrder = false) (l : List (Text × Record)) (s : Progress) :
    l.foldl (Progress.add lower v t p) s =
      ⟨s.total + l.length, s.page, (l.map fun e => ⟨e.1, e.2, sortView v t e⟩).foldl
        (Window.keep (heapOrder lower p.sort) p.sortWindow) s.heap⟩ := by
  induction l generalizing s with
  | nil => rfl
  | cons e l ih =>
    rw [List.foldl_cons, ih, Progress.add, horder, if_neg Bool.false_ne_true, List.map_cons,
      List.foldl_cons, List.length_cons]
    simp only [Progress.mk.injEq, and_true]
    omega

/-! ## Pages -/

theorem nodup_candidates (v : Env) (actor : Actor) (t : Tables) (kind : Kind) (p : Plan) :
    (candidates v actor t kind p).Pairwise fun a b => a.1 ≠ b.1 := by
  refine ((t.bucket kind).directed_pairwise p.reverse).filter _ |>.imp fun {a b} h heq => ?_
  rw [heq] at h
  exact Bool.false_ne_true ((before_asymm h).symm.trans h)

/-- A sort view has the id of its record. -/
theorem idOf_sortView (h : scimFilterView v t e.1 e.2 = .ok value) :
    idOf (sortView v t e) = (e.1 : WithBot Text) := by
  suffices hid : value.field "id".toList = .str e.1 by
    rw [sortView_of_view h, idOf, hid]
    rfl
  unfold scimFilterView at h
  obtain ⟨hobject, h⟩ := seq_ok.mp h
  have hset : (e.2.data.setField "id".toList (.str e.1)).field "id".toList = .str e.1 := by
    obtain hobject | hnull := require_ok.mp hobject
    · exact Json.field_setField_self hobject
    · rw [hnull]
      rfl
  cases hkind : e.2.kind with
  | users =>
    rw [hkind] at h
    obtain ⟨user, -, h⟩ := bind_ok.mp h
    unfold withUser at h
    obtain ⟨stored, -, h⟩ := bind_ok.mp h
    cases h
    split_ifs
    · rw [Json.field_setField_ne (by decide), Json.field_setField_ne (by decide),
        Json.field_setField_ne (by decide), hset]
    · rw [Json.field_setField_ne (by decide), Json.field_setField_ne (by decide), hset]
  | groups =>
    rw [hkind] at h
    obtain ⟨group, -, h⟩ := bind_ok.mp h
    cases h
    exact hset

theorem sort_of_storeOrder (h : p.storeOrder = false) : ∃ spec, p.sort = some spec := by
  cases hsort : p.sort with
  | none =>
    rw [Plan.storeOrder, hsort] at h
    cases h
  | some spec => exact ⟨spec, rfl⟩

variable (lower) in
/-- The candidates that wait in the heap are in a strict order. -/
theorem strict_candidates (horder : p.storeOrder = false) {l : List (Text × Record)}
    (hl : l.Pairwise fun a b => a.1 ≠ b.1)
    (hviews : ∀ e ∈ l, ∃ value, scimFilterView v t e.1 e.2 = .ok value) :
    Window.Strict (heapOrder lower p.sort) (l.map fun e => ⟨e.1, e.2, sortView v t e⟩) := by
  obtain ⟨spec, hspec⟩ := sort_of_storeOrder horder
  have hiff : ∀ a b, heapOrder lower p.sort a b ↔ compareSort lower a.value b.value spec = .lt := by
    intro a b
    rw [heapOrder, hspec, Option.any_some, decide_eq_true_eq]
  refine ⟨fun a h => compareSort_irrefl a.value ((hiff a a).mp h), fun a b c hab hbc => ?_, ?_⟩
  · exact (hiff a c).mpr (compareSort_trans ((hiff a b).mp hab) ((hiff b c).mp hbc))
  · refine List.pairwise_map.mpr (hl.imp_of_mem fun {a b} ha hb hne => ?_)
    obtain ⟨x, hx⟩ := hviews a ha
    obtain ⟨y, hy⟩ := hviews b hb
    rw [hiff, hiff]
    refine compareSort_total fun hid => hne ?_
    rw [idOf_sortView hx, idOf_sortView hy] at hid
    exact WithBot.coe_inj.mp hid

variable (lower) in
/-- The listing has the candidates in order. -/
theorem listing_spec (hviews : p.storeOrder = false → ∀ e ∈ candidates v actor t kind p,
      ∃ value, scimFilterView v t e.1 e.2 = .ok value) :
    (listing lower v actor t kind p).Perm (candidates v actor t kind p) ∧
      (listing lower v actor t kind p).Pairwise (precedes lower v t p) := by
  cases horder : p.storeOrder with
  | true =>
    have hlisting : listing lower v actor t kind p = candidates v actor t kind p := by
      rw [listing, horder, if_pos rfl]
    rw [hlisting]
    refine ⟨.refl _, (((t.bucket kind).directed_pairwise p.reverse).filter _).imp fun {a b} h => ?_⟩
    rw [precedes, horder, if_pos rfl]
    exact h
  | false =>
    have hstrict := strict_candidates lower horder
      (nodup_candidates v actor t kind p) (hviews horder)
    rw [listing, horder, if_neg Bool.false_ne_true]
    have hperm := Window.arrange_perm hstrict
    refine ⟨?_, List.pairwise_map.mpr ?_⟩
    · have hmap := hperm.map fun c : SortedRecord => (c.id, c.record)
      rwa [List.map_map, Function.comp_def, List.map_id'] at hmap
    · refine (Window.arrange_pairwise hstrict).imp_of_mem fun {a b} ha hb h => ?_
      obtain ⟨x, -, rfl⟩ := List.mem_map.mp (hperm.mem_iff.mp ha)
      obtain ⟨y, -, rfl⟩ := List.mem_map.mp (hperm.mem_iff.mp hb)
      rw [precedes, horder, if_neg Bool.false_ne_true]
      exact h

theorem precedes_irrefl (a : Text × Record) : ¬ precedes lower v t p a a := by
  unfold precedes
  split_ifs with horder
  · exact fun h => Bool.false_ne_true ((before_asymm h).symm.trans h)
  · obtain ⟨spec, hspec⟩ := sort_of_storeOrder (Bool.eq_false_iff.mpr horder)
    rw [hspec, Option.any_some, decide_eq_true_eq]
    exact compareSort_irrefl _

theorem precedes_trans {a b c : Text × Record} (hab : precedes lower v t p a b)
    (hbc : precedes lower v t p b c) : precedes lower v t p a c := by
  unfold precedes at hab hbc ⊢
  split_ifs at hab hbc ⊢ with horder
  · exact before_trans hab hbc
  · obtain ⟨spec, hspec⟩ := sort_of_storeOrder (Bool.eq_false_iff.mpr horder)
    rw [hspec, Option.any_some, decide_eq_true_eq] at hab hbc ⊢
    exact compareSort_trans hab hbc

/-- **A page is a part of the listing.** -/
theorem scimList_ok {render : List (Text × Record) → Result (List Json)} {res : Listing}
    (h : scimList lower v actor t kind render q = .ok res) :
    ∃ p, q.plan kind = .ok p ∧
      res.totalResults = (listing lower v actor t kind p).length ∧
      res.page = ((listing lower v actor t kind p).drop (q.start - 1)).take q.size ∧
      render res.page = .ok res.resources ∧
      (p.storeOrder = false → ∀ e ∈ candidates v actor t kind p,
        ∃ value, scimFilterView v t e.1 e.2 = .ok value) := by
  unfold scimList at h
  obtain ⟨p, hplan, h⟩ := bind_ok.mp h
  obtain ⟨hwindow, h⟩ := seq_ok.mp h
  obtain ⟨s, hloop, h⟩ := bind_ok.mp h
  obtain ⟨resources, hrender, h⟩ := bind_ok.mp h
  cases h
  obtain ⟨hstart, hcount⟩ : p.start = q.start ∧ p.count = q.size := by
    unfold Query.plan at hplan
    obtain ⟨filter, -, hplan⟩ := bind_ok.mp hplan
    obtain ⟨sort, -, hplan⟩ := bind_ok.mp hplan
    cases hplan
    exact ⟨rfl, rfl⟩
  have hpos : 0 < p.start := hstart ▸ Nat.le_max_right _ 1
  have hfuel : ((t.bucket kind).after p.reverse none).length < (t.bucket kind).entries.length + 1 := by
    rw [after_none, length_directed]
    exact Nat.lt_succ_self _
  rw [forPages_eq (by decide) _ hfuel, after_none] at hloop
  obtain ⟨hs, hviews⟩ := foldlM_visit hloop fun _ => rfl
  refine ⟨p, hplan, ?_⟩
  rw [← hstart, ← hcount]
  cases horder : p.storeOrder with
  | true =>
    have hadd := foldl_add_store lower v t horder hpos
      (candidates v actor t kind p) []
    rw [List.drop_nil, List.take_nil, List.nil_append] at hadd
    rw [horder, if_pos rfl] at hrender
    rw [listing, horder, if_pos rfl, if_pos rfl]
    rw [show s = _ from hs.trans hadd] at hrender ⊢
    exact ⟨rfl, rfl, hrender, fun hno => nomatch hno⟩
  | false =>
    have hstrict := strict_candidates lower horder
      (nodup_candidates v actor t kind p) (hviews horder)
    have hadd := foldl_add_sorted lower v t horder
      (candidates v actor t kind p) ⟨0, [], []⟩
    rw [Window.foldl_keep hstrict] at hadd
    rw [horder, if_neg Bool.false_ne_true] at hrender
    rw [listing, horder, if_neg Bool.false_ne_true, if_neg Bool.false_ne_true]
    rw [show s = _ from hs.trans hadd] at hrender ⊢
    refine ⟨?_, ?_, hrender, fun _ => hviews horder⟩
    · rw [List.length_map, (Window.arrange_perm hstrict).length_eq, List.length_map, Nat.zero_add]
    · rw [← List.map_drop, ← List.map_take, List.drop_take, List.take_take]
      -- the window reaches to the end of the page
      have hbound := (require_ok.mp hwindow).resolve_left (by rw [horder]; exact Bool.false_ne_true)
      have hmin : min p.count (p.sortWindow - (p.start - 1)) = p.count := by
        unfold Plan.sortWindow at hbound ⊢
        unfold MAX_SORT_CANDIDATES u64Max at *
        split_ifs at hbound ⊢ <;> omega
      rw [hmin]

/-! ### Consecutive pages -/

/-- Each request starts where the one before ends. -/
def Consecutive : ℕ → List Query → Prop
  | _, [] => True
  | start, q :: queries => q.start = start ∧ Consecutive (start + q.size) queries

/-- The requests ask for the same, but for the part. -/
def Query.Same (q q' : Query) : Prop :=
  q'.filter = q.filter ∧ q'.sortBy = q.sortBy ∧ q'.sortOrder = q.sortOrder

theorem Query.Same.plan {q' : Query} {p' : Plan} (h : q.Same q') (hq : q.plan kind = .ok p)
    (hq' : q'.plan kind = .ok p') : p'.filter = p.filter ∧ p'.sort = p.sort := by
  unfold Query.plan at hq hq'
  rw [h.1, h.2.1, h.2.2] at hq'
  obtain ⟨filter, hfilter, hq⟩ := bind_ok.mp hq
  obtain ⟨sort, hsort, hq⟩ := bind_ok.mp hq
  obtain ⟨filter', hfilter', hq'⟩ := bind_ok.mp hq'
  obtain ⟨sort', hsort', hq'⟩ := bind_ok.mp hq'
  cases hq
  cases hq'
  exact ⟨Except.ok.inj (hfilter'.symm.trans hfilter), Except.ok.inj (hsort'.symm.trans hsort)⟩

theorem listing_congr {p' : Plan} (hfilter : p'.filter = p.filter) (hsort : p'.sort = p.sort) :
    listing lower v actor t kind p' = listing lower v actor t kind p := by
  obtain ⟨filter, sort, start, count⟩ := p
  obtain ⟨filter', sort', start', count'⟩ := p'
  cases hfilter
  cases hsort
  rfl

theorem flatten_pages {render : List (Text × Record) → Result (List Json)}
    (hq : q.plan kind = .ok p) {pages : List (Query × Listing)}
    (hpages : ∀ x ∈ pages, q.Same x.1 ∧ scimList lower v actor t kind render x.1 = .ok x.2) {n : ℕ}
    (h : Consecutive (n + 1) (pages.map Prod.fst)) :
    (pages.map fun x => x.2.page).flatten =
      ((listing lower v actor t kind p).drop n).take (pages.map fun x => x.1.size).sum := by
  induction pages generalizing n with
  | nil => simp
  | cons x pages ih =>
    obtain ⟨⟨hsame, hlist⟩, hrest⟩ := List.forall_mem_cons.mp hpages
    obtain ⟨hstart, hnext⟩ := h
    obtain ⟨p', hplan, -, hpage, -, -⟩ := scimList_ok hlist
    obtain ⟨hfilter, hsort⟩ := hsame.plan hq hplan
    rw [listing_congr hfilter hsort, hstart, Nat.add_sub_cancel] at hpage
    rw [List.map_cons, List.flatten_cons, List.map_cons, List.sum_cons, hpage,
      ih hrest (n := n + x.1.size) (by rwa [Nat.add_right_comm] at hnext), List.take_add,
      List.drop_drop]

/-- **SCIM list pages are slices of one total order.** A page and the total are those of the
listing, which has every visible record that matches the filter once, in a strict order. Consecutive
pages that reach to the end of the listing make it up. -/
theorem scimList_slices (lower : Text → Text) (v : Env) (actor : Actor) (t : Tables) (kind : Kind)
    (render : List (Text × Record) → Result (List Json)) :
    (∀ q res, scimList lower v actor t kind render q = .ok res → ∃ p, q.plan kind = .ok p ∧
      res.totalResults = (listing lower v actor t kind p).length ∧
      res.page = ((listing lower v actor t kind p).drop (q.start - 1)).take q.size ∧
      render res.page = .ok res.resources ∧
      (listing lower v actor t kind p).Perm
        ((t.bucket kind).entries.filter (found v actor t kind p.filter)) ∧
      (listing lower v actor t kind p).Pairwise (precedes lower v t p)) ∧
    (∀ p, (∀ a, ¬ precedes lower v t p a a) ∧
      ∀ a b c, precedes lower v t p a b → precedes lower v t p b c → precedes lower v t p a c) ∧
    ∀ (q : Query) (p : Plan), q.plan kind = .ok p → ∀ pages : List (Query × Listing),
      (∀ x ∈ pages, q.Same x.1 ∧ scimList lower v actor t kind render x.1 = .ok x.2) →
      Consecutive 1 (pages.map Prod.fst) →
      (listing lower v actor t kind p).length ≤ (pages.map fun x => x.1.size).sum →
      (pages.map fun x => x.2.page).flatten = listing lower v actor t kind p := by
  refine ⟨fun q res h => ?_, fun p => ⟨precedes_irrefl, fun a b c => precedes_trans⟩,
    fun q p hq pages hpages hnext hlength => ?_⟩
  · obtain ⟨p, hplan, htotal, hpage, hrender, hviews⟩ := scimList_ok h
    obtain ⟨hperm, hsorted⟩ := listing_spec lower hviews
    refine ⟨p, hplan, htotal, hpage, hrender, hperm.trans ?_, hsorted⟩
    refine List.Perm.filter _ ?_
    unfold directed
    split_ifs
    · exact List.reverse_perm _
    · rfl
  · rw [flatten_pages hq hpages hnext, List.drop_zero, List.take_of_length_le hlength]

end

/-- Three groups of one owner, with names in another order than their ids. -/
def threeGroups : Tables where
  users := .empty
  groups := .ofList [("dev".toList, ∅), ("ops".toList, ∅), ("art".toList, ∅)]
  scimUsers := .empty
  scimGroups := .ofList (["dev", "ops", "art"].zipIdx.map fun e =>
    (['g', Char.ofNat (48 + e.2)], ⟨"scim".toList, .groups, e.1.toList, none,
      .obj [("displayName".toList, .str e.1.toList), ("schemas".toList, .arr [.str GROUP])],
      false, []⟩))
  next := 0

/-- A request for some of the groups by name, in descending order. -/
def byName (start count : ℕ) : Query :=
  ⟨none, some "displayName".toList, some "descending".toList, some start, some count⟩

/-- A caller that may list. -/
def lister : Actor := ⟨"scim".toList, false, fun _ _ => true⟩

/-- The groups as they are listed. -/
def listGroups (q : Query) : Result Listing :=
  scimList (·.map Char.toLower) plainEnv lister threeGroups .groups (fun _ => .ok []) q

theorem scimList_slices_byName :
    ∃ res res', listGroups (byName 1 2) = .ok res ∧ listGroups (byName 3 1) = .ok res' ∧
      (res.page ++ res'.page).map Prod.fst = ["g1".toList, "g0".toList, "g2".toList] := by
  obtain ⟨res, hres⟩ : ∃ res, listGroups (byName 1 2) = .ok res := ⟨_, rfl⟩
  obtain ⟨res', hres'⟩ : ∃ res, listGroups (byName 3 1) = .ok res := ⟨_, rfl⟩
  have hpages := (scimList_slices (·.map Char.toLower) plainEnv lister threeGroups .groups
    (fun _ => .ok [])).2.2 (byName 1 2) ⟨none, some ⟨.displayName, true⟩, 1, 2⟩ rfl
    [(byName 1 2, res), (byName 3 1, res')]
    (List.forall_mem_cons.mpr ⟨⟨⟨rfl, rfl, rfl⟩, hres⟩,
      List.forall_mem_cons.mpr ⟨⟨⟨rfl, rfl, rfl⟩, hres'⟩, nofun⟩⟩)
    ⟨rfl, rfl, trivial⟩ (show _ ≤ 3 by decide)
  refine ⟨res, res', hres, hres', ?_⟩
  have hall : res.page ++ (res'.page ++ []) = _ := hpages
  rw [List.append_nil] at hall
  rw [hall]
  decide

end RiAuth.Scim
