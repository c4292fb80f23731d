import RiAuth.Scim.Patch

/-!
# What a patch keeps of a resource

A patch writes attributes that its operations name, and no others. The addresses of a user come out
valid. To say which of them is primary they are followed through the operations, each with a mark:
the last operation that made an address primary made this one primary.

* `ValidView`: what a resource looks like before a patch;
* `markOperation`: the addresses and their marks after one operation;
* **`patchResource_keeps`**: what an accepted patch keeps.
-/

namespace RiAuth.Scim

open Checks

/-! ## Valid addresses -/

/-- The addresses of a resource. -/
def addressesOf (data : Json) : List Json :=
  match data.get? "emails".toList with
  | some (.arr emails) => emails
  | _ => []

/-- Whether it is the primary address. -/
def isPrimary (email : Json) : Bool := email.field "primary".toList = .bool true

/-- The value of an address, whatever the case of its letters. -/
def addressKey (email : Json) : Text :=
  ((email.field "value".toList).asStr.getD []).map Char.toLower

/-- What is asked of the addresses of a user. -/
structure ValidAddresses (emails : List Json) : Prop where
  length : emails.length ≤ 8
  distinct : (emails.map addressKey).Nodup
  primary : emails.countP isPrimary ≤ 1

theorem asBool_eq_true {value : Json} : value.asBool = some true ↔ value = .bool true := by
  cases value <;> simp [Json.asBool]

section

variable {v : Env} {data data' : Json}

theorem foldlM_validateEmailEntry {emails : List Json} {seen seen' : List Text}
    (h : emails.foldlM (validateEmailEntry v) seen = .ok seen') (hseen : seen.Nodup) :
    seen' = (emails.map addressKey).reverse ++ seen ∧ seen'.Nodup := by
  induction emails generalizing seen with
  | nil =>
    cases h
    exact ⟨rfl, hseen⟩
  | cons email emails ih =>
    rw [List.foldlM_cons] at h
    obtain ⟨seen₁, hfirst, h⟩ := bind_ok.mp h
    unfold validateEmailEntry at hfirst
    obtain ⟨value, hvalue, hfirst⟩ := bind_ok.mp hfirst
    obtain ⟨-, hfirst⟩ := seq_ok.mp hfirst
    obtain ⟨hnew, hfirst⟩ := seq_ok.mp hfirst
    obtain ⟨-, hfirst⟩ := seq_ok.mp hfirst
    obtain ⟨-, hfirst⟩ := seq_ok.mp hfirst
    cases hfirst
    have hkey : addressKey email = value.map Char.toLower := by
      rw [addressKey, okOr_ok.mp hvalue, Option.getD_some]
    obtain ⟨hall, hnodup⟩ := ih h (List.nodup_cons.mpr ⟨require_ok.mp hnew, hseen⟩)
    refine ⟨?_, hnodup⟩
    rw [hall, List.map_cons, List.reverse_cons, List.append_assoc, hkey]
    rfl

theorem foldlM_readEntry {emails : List Json} {acc acc' : Option Text × Option Text}
    (h : emails.foldlM (readEntry v) acc = .ok acc') :
    emails.countP isPrimary ≤ if acc.1 = none then 1 else 0 := by
  induction emails generalizing acc with
  | nil => exact Nat.zero_le _
  | cons email emails ih =>
    rw [List.foldlM_cons] at h
    obtain ⟨acc₁, hfirst, h⟩ := bind_ok.mp h
    have hrest := ih h
    unfold readEntry at hfirst
    obtain ⟨value, -, hfirst⟩ := bind_ok.mp hfirst
    obtain ⟨-, hfirst⟩ := seq_ok.mp hfirst
    rw [List.countP_cons]
    dsimp only at hfirst
    split_ifs at hfirst with hprimary
    · obtain ⟨hnone, hfirst⟩ := seq_ok.mp hfirst
      cases hfirst
      rw [if_neg (by simp)] at hrest
      rw [if_pos (require_ok.mp hnone)]
      split_ifs <;> omega
    · cases hfirst
      have hnot : isPrimary email = false := by
        rw [isPrimary, decide_eq_false_iff_not, ← asBool_eq_true]
        exact hprimary
      rwa [hnot, if_neg Bool.false_ne_true, Nat.add_zero]

/-- Addresses that pass the check are valid. -/
theorem validateEmailEntries_ok (h : validateEmailEntries v data = .ok ()) :
    ValidAddresses (addressesOf data) := by
  unfold validateEmailEntries at h
  unfold addressesOf
  split at h
  · rename_i hnone
    rw [hnone]
    exact ⟨Nat.zero_le _, List.nodup_nil, Nat.zero_le _⟩
  · rename_i emails hemails
    obtain ⟨hlength, h⟩ := seq_ok.mp h
    obtain ⟨seen, hseen, h⟩ := bind_ok.mp h
    obtain ⟨email, hread, -⟩ := bind_ok.mp h
    rw [hemails]
    refine ⟨require_ok.mp hlength, ?_, ?_⟩
    · obtain ⟨rfl, hnodup⟩ := foldlM_validateEmailEntry hseen List.nodup_nil
      rwa [List.append_nil, List.nodup_reverse] at hnodup
    · unfold readEmail at hread
      rw [hemails] at hread
      obtain ⟨-, hread⟩ := seq_ok.mp hread
      obtain ⟨acc, hacc, -⟩ := bind_ok.mp hread
      exact foldlM_readEntry hacc
  · cases h

end

/-! ## Marks -/

/-- Addresses, each with whether the last operation that newly added or promoted an address as
primary did so with this one. -/
abbrev Marked := List (Json × Bool)

/-- Primary no longer. -/
def demote (email : Json) : Json := email.setField "primary".toList (.bool false)

/-- An address joins the others, if its value is new. -/
def joinMarked (l : Marked) (item : Json) : Marked :=
  if l.any (fun e => sameEntry .emails ((item.field "value".toList).asStr.getD []) e.1) then l
  else if isPrimary item then l.map (fun e => (demote e.1, false)) ++ [(item, true)]
  else l ++ [(item, false)]

section

variable (v : Env)

/-- An operation on the whole attribute. -/
def markRoot (operation : PatchOp) (value : Json) (l : Marked) : Marked :=
  match patchEntries v .emails value with
  | .error _ => l
  | .ok incoming =>
    if operation = .replace then incoming.map fun e => (e, isPrimary e)
    else incoming.foldl joinMarked l

/-- An operation on the addresses that a filter selects. -/
def markSelected (filter : FilterExpr) (sub : Option Sub) (operation : PatchOp) (value : Json)
    (l : Marked) : Marked :=
  if operation = .remove then
    match sub with
    | none => l.filter fun e => !filter.matches e.1
    | some sub => l.map fun e => (if filter.matches e.1 then e.1.removeField sub.name else e.1, e.2)
  else
    match readReplacement v .emails sub value with
    | .error _ => l
    | .ok (fields, promote) =>
      let change (e : Json) := fields.foldl (fun e f => e.setField f.1 f.2) e
      if promote then l.map fun e =>
        if filter.matches e.1 then (change e.1, true) else (demote e.1, false)
      else l.map fun e => (if filter.matches e.1 then change e.1 else e.1, e.2)

/-- The effect of a field on the marks. -/
def markField (operation : PatchOp) (l : Marked) (f : Text × Json) : Marked :=
  if f.1 = "emails".toList then markRoot v operation f.2 l else l

/-- The effect of a path on the marks. -/
def markPath (operation : PatchOp) (path : Text) (value : Json) (l : Marked) : Marked :=
  match patchValuePath path with
  | .error _ => l
  | .ok (some (_, filter, sub)) => markSelected v filter sub operation value l
  | .ok none =>
    match namePath .users path with
    | .ok none =>
      if canonicalName path = some "emails".toList then
        if operation = .remove then [] else markRoot v operation value l
      else l
    | _ => l

/-- The addresses of a user and their marks after an operation. -/
def markOperation (l : Marked) (op : Json) : Marked :=
  match readPatchOp op with
  | .error _ => l
  | .ok operation =>
    if (op.field "path".toList).isNull then
      match normalize (op.field "value".toList) with
      | .error _ => l
      | .ok value => value.fields.foldl (markField v operation) l
    else markPath v operation ((op.field "path".toList).asStr.getD []) (op.field "value".toList) l

/-- The addresses of a user after a patch, with their marks. -/
def markResource (old input : Json) : Marked :=
  (items input "Operations".toList).foldl (markOperation v)
    ((addressesOf old).map fun e => (e, false))

end

/-- If an address is marked, the primary ones are. -/
def Settled (l : Marked) : Prop :=
  (∃ e ∈ l, e.2 = true) → ∀ e ∈ l, isPrimary e.1 = true → e.2 = true

/-- The marked addresses are those of a user. -/
structure Follows (data : Json) (l : Marked) : Prop where
  user : data.get? "schemas".toList = some (.arr [.str USER])
  addresses : addressesOf data = l.map Prod.fst
  settled : Settled l

/-! ### The steps -/

section

variable {l : Marked}

theorem isPrimary_demote (email : Json) : isPrimary (demote email) = false := by
  unfold isPrimary demote
  cases email with
  | obj fields => rw [Json.field_setField_self rfl]; rfl
  | _ => rfl

theorem setEmailPrimary_append (current : List Json) (item : Json) :
    setEmailPrimary (current ++ [item]) current.length = current.map demote ++ [item] := by
  unfold setEmailPrimary
  rw [List.mapIdx_append]
  congr 1
  · refine List.ext_getElem (by rw [List.length_mapIdx, List.length_map]) fun i hi _ => ?_
    rw [List.length_mapIdx] at hi
    rw [List.getElem_mapIdx, if_neg hi.ne, List.getElem_map, demote]
  · rw [List.mapIdx_cons, List.mapIdx_nil, if_pos (Nat.zero_add _)]

/-- Where one element is selected, the winner is that one. -/
theorem setEmailPrimary_findIdx {p : Json → Bool} (f : Json → Json) {current : List Json}
    (h : current.countP p = 1) :
    setEmailPrimary (current.map f) (current.findIdx p) =
      current.map fun e => if p e then f e else demote (f e) := by
  unfold setEmailPrimary
  induction current with
  | nil => rfl
  | cons e current ih =>
    rw [List.map_cons, List.mapIdx_cons, List.findIdx_cons, List.map_cons]
    rw [List.countP_cons] at h
    cases hp : p e with
    | true =>
      rw [hp, if_pos rfl] at h
      have hnone := List.countP_eq_zero.mp (Nat.succ.inj h)
      simp only [cond_true, if_true, List.cons.injEq, true_and, Nat.succ_ne_zero, if_false]
      refine List.ext_getElem (by simp) fun i hi _ => ?_
      rw [List.getElem_mapIdx, List.getElem_map, List.getElem_map,
        if_neg (hnone _ (List.getElem_mem _)), demote]
    | false =>
      rw [hp, if_neg Bool.false_ne_true] at h
      simp only [cond_false, Bool.false_eq_true, if_false, Nat.add_right_cancel_iff]
      rw [ih h, if_neg (Nat.succ_ne_zero _).symm, demote]

theorem appendEntry_joinMarked {item : Json} {current : List Json}
    (h : appendEntry .emails (l.map Prod.fst) item = .ok current) :
    current = (joinMarked l item).map Prod.fst := by
  unfold appendEntry at h
  obtain ⟨key, hkey, h⟩ := bind_ok.mp h
  unfold joinMarked
  rw [okOr_ok.mp hkey, Option.getD_some]
  rw [List.any_map] at h
  by_cases hsame : l.any (fun e => sameEntry .emails key e.1) = true
  · rw [if_pos hsame]
    rw [Function.comp_def, if_pos hsame] at h
    cases h
    rfl
  · rw [if_neg hsame]
    rw [Function.comp_def, if_neg hsame] at h
    cases h
    by_cases hprimary : isPrimary item = true
    · rw [if_pos ⟨rfl, of_decide_eq_true hprimary⟩, if_pos hprimary, List.length_append]
      refine (setEmailPrimary_append _ _).trans ?_
      rw [List.map_append, List.map_map, List.map_map]
      rfl
    · rw [if_neg fun hboth => hprimary (decide_eq_true hboth.2), if_neg hprimary, List.map_append]
      rfl

theorem Settled.joinMarked (h : Settled l) (item : Json) : Settled (joinMarked l item) := by
  unfold Scim.joinMarked
  split_ifs with hsame hprimary
  · exact h
  · rintro - e he hyes
    obtain he | he := List.mem_append.mp he
    · obtain ⟨e', -, rfl⟩ := List.mem_map.mp he
      rw [isPrimary_demote] at hyes
      cases hyes
    · rw [List.mem_singleton.mp he]
  · rintro ⟨m, hm, hmark⟩ e he hyes
    have hm : m ∈ l := (List.mem_append.mp hm).resolve_right fun hm => by
      rw [List.mem_singleton.mp hm] at hmark
      cases hmark
    obtain he | he := List.mem_append.mp he
    · exact h ⟨m, hm, hmark⟩ e he hyes
    · rw [List.mem_singleton.mp he] at hyes
      exact absurd hyes hprimary

/-- Marks stay with addresses that do not become primary. -/
theorem Settled.map (h : Settled l) {f : Json → Json}
    (hf : ∀ e, isPrimary (f e) = true → isPrimary e = true) :
    Settled (l.map fun e => (f e.1, e.2)) := by
  rintro ⟨m, hm, hmark⟩ e he hyes
  obtain ⟨m', hm', rfl⟩ := List.mem_map.mp hm
  obtain ⟨e', he', rfl⟩ := List.mem_map.mp he
  exact h ⟨m', hm', hmark⟩ e' he' (hf _ hyes)

theorem Settled.filter (h : Settled l) (p : Json × Bool → Bool) : Settled (l.filter p) := by
  rintro ⟨m, hm, hmark⟩ e he hyes
  exact h ⟨m, (List.mem_filter.mp hm).1, hmark⟩ e (List.mem_filter.mp he).1 hyes

end

/-! ### What the selected addresses get -/

section

variable {v : Env} {data data' : Json} {l : Marked}

theorem isPrimary_setField {email new : Json} {name : Text}
    (h : isPrimary (email.setField name new) = true) :
    (name = "primary".toList ∧ new = .bool true) ∨ isPrimary email = true := by
  by_cases hname : name = "primary".toList
  · subst hname
    have hyes := of_decide_eq_true h
    cases email with
    | obj fields =>
      rw [Json.field_setField_self rfl] at hyes
      exact .inl ⟨rfl, hyes⟩
    | null =>
      rw [Json.setField, Json.field_cons_self] at hyes
      exact .inl ⟨rfl, hyes⟩
    | _ => cases hyes
  · rw [isPrimary, Json.field_setField_ne (Ne.symm hname)] at h
    exact .inr h

theorem isPrimary_foldl {fields : List (Text × Json)} {email : Json}
    (h : isPrimary (fields.foldl (fun e f => e.setField f.1 f.2) email) = true) :
    ("primary".toList, .bool true) ∈ fields ∨ isPrimary email = true := by
  induction fields generalizing email with
  | nil => exact .inr h
  | cons f fields ih =>
    obtain hmem | hfirst := ih h
    · exact .inl (List.mem_cons_of_mem f hmem)
    · obtain ⟨hname, hnew⟩ | hold := isPrimary_setField hfirst
      · exact .inl (List.mem_cons.mpr (.inl (Prod.ext hname.symm hnew.symm)))
      · exact .inr hold

/-- An entry has each sub-attribute once. -/
theorem patchEntry_get? {field : Multi} {value entry : Json}
    (h : patchEntry v field value = .ok entry) :
    ∀ f ∈ entry.fields, entry.get? f.1 = some f.2 := by
  unfold patchEntry at h
  split at h
  · obtain ⟨result, hresult, h⟩ := bind_ok.mp h
    obtain ⟨-, h⟩ := seq_ok.mp h
    cases h
    refine (foldlM_invariant (P := fun r : Json => r.isObj = true ∧ ∀ f ∈ r.fields,
      r.get? f.1 = some f.2) (fun r f r' hstep hr => ?_) hresult ⟨rfl, by simp [Json.fields]⟩).2
    unfold entryField at hstep
    obtain ⟨sub, -, hstep⟩ := bind_ok.mp hstep
    cases sub with
    | none =>
      cases hstep
      exact hr
    | some sub =>
      obtain ⟨-, hstep⟩ := seq_ok.mp hstep
      obtain ⟨hnew, hstep⟩ := seq_ok.mp hstep
      cases hstep
      refine ⟨Json.isObj_setField hr.1, fun g hg => ?_⟩
      obtain hg | rfl := mem_fields_setField hg
      · have hne : g.1 ≠ sub.name := by
          intro heq
          have hsome := hr.2 g hg
          rw [heq, require_ok.mp hnew] at hsome
          cases hsome
        rw [Json.get?_setField_ne hne]
        exact hr.2 g hg
      · exact Json.get?_setField_self hr.1
  · cases h

/-- A replacement that promotes nothing makes no address primary. -/
theorem readReplacement_isPrimary {sub : Option Sub} {value email : Json}
    {fields : List (Text × Json)} (h : readReplacement v .emails sub value = .ok (fields, false))
    (hyes : isPrimary (fields.foldl (fun e f => e.setField f.1 f.2) email) = true) :
    isPrimary email = true := by
  refine (isPrimary_foldl hyes).resolve_left fun hmem => ?_
  unfold readReplacement at h
  cases sub with
  | some sub =>
    obtain ⟨-, h⟩ := seq_ok.mp h
    obtain ⟨-, h⟩ := seq_ok.mp h
    obtain ⟨rfl, hpromote⟩ := Prod.mk.inj (Except.ok.inj h)
    obtain ⟨hname, rfl⟩ := Prod.mk.inj (List.mem_singleton.mp hmem)
    have hsub : sub = .primary := by
      cases sub with
      | primary => rfl
      | _ => exact absurd hname (by decide)
    subst hsub
    simp at hpromote
  | none =>
    obtain ⟨entry, hentry, h⟩ := bind_ok.mp h
    obtain ⟨rfl, hpromote⟩ := Prod.mk.inj (Except.ok.inj h)
    have hfield : entry.field "primary".toList = .bool true := by
      rw [Json.field, patchEntry_get? hentry _ hmem, Option.getD_some]
    exact of_decide_eq_false hpromote hfield

/-! ### Operations and patches -/

theorem Follows.isObj (h : Follows data l) : data.isObj = true := by
  cases data with
  | obj fields => rfl
  | _ => cases h.user

theorem Follows.of_get? (h : Follows data l)
    (hschemas : data'.get? "schemas".toList = data.get? "schemas".toList)
    (hemails : data'.get? "emails".toList = data.get? "emails".toList) : Follows data' l :=
  ⟨hschemas.trans h.user, by rw [addressesOf, hemails, ← h.addresses, addressesOf], h.settled⟩

theorem Follows.setEmails (h : Follows data l) {l' : Marked} (hl : Settled l') :
    Follows (data.setField "emails".toList (.arr (l'.map Prod.fst))) l' where
  user := (Json.get?_setField_ne (by decide)).trans h.user
  addresses := by rw [addressesOf, Json.get?_setField_self h.isObj]
  settled := hl

theorem Follows.root (hf : Follows data l) {operation : PatchOp} {value : Json}
    (h : patchMultiRoot v data .emails operation value = .ok data') :
    Follows data' (markRoot v operation value l) := by
  unfold patchMultiRoot at h
  obtain ⟨incoming, hincoming, h⟩ := bind_ok.mp h
  unfold markRoot
  rw [hincoming]
  by_cases hreplace : operation = .replace
  · rw [if_pos hreplace] at h
    cases h
    have hl : Settled (incoming.map fun e => (e, isPrimary e)) := by
      rintro - e he hyes
      obtain ⟨e', -, rfl⟩ := List.mem_map.mp he
      exact hyes
    have hnew := hf.setEmails hl
    rw [List.map_map, Function.comp_def, List.map_id'] at hnew
    dsimp only
    rw [if_pos hreplace]
    exact hnew
  · rw [if_neg hreplace] at h
    obtain ⟨current, hcurrent, h⟩ := bind_ok.mp h
    obtain ⟨current', hcurrent', h⟩ := bind_ok.mp h
    cases h
    have hstart : current = l.map Prod.fst := by
      rw [← hf.addresses, addressesOf]
      split at hcurrent
      · rename_i hnone
        cases hcurrent
        rw [show data.get? "emails".toList = none from hnone]
      · rename_i hsome
        cases hcurrent
        rw [show data.get? "emails".toList = some (.arr current) from hsome]
      · cases hcurrent
    obtain ⟨rfl, hl⟩ := foldlM_simulation
      (R := fun (current : List Json) (l : Marked) => current = l.map Prod.fst ∧ Settled l)
      (fun item s s' m hstep hm => ⟨appendEntry_joinMarked (hm.1 ▸ hstep), hm.2.joinMarked item⟩)
      hcurrent' ⟨hstart, hf.settled⟩
    dsimp only
    rw [if_neg hreplace]
    exact hf.setEmails hl

section Selected

variable {filter : FilterExpr} {sub : Option Sub} {operation : PatchOp} {value : Json}

/-- Where nothing is selected, a removal leaves the addresses. -/
theorem Follows.noSelection (hf : Follows data l) (hnone : ∀ e ∈ l, filter.matches e.1 = false)
    (h : noSelection data operation = .ok data') :
    Follows data' (markSelected v filter sub operation value l) := by
  obtain ⟨hremove, rfl⟩ := noSelection_ok h
  unfold markSelected
  rw [if_pos hremove]
  cases sub with
  | none =>
    dsimp only
    rwa [List.filter_eq_self.mpr fun e he => by rw [hnone e he]; rfl]
  | some sub =>
    dsimp only
    rwa [List.map_congr_left (g := id) fun e he => by rw [hnone e he]; rfl, List.map_id]

theorem isPrimary_removeField {e : Json} {name : Text} (h : isPrimary (e.removeField name) = true) :
    isPrimary e = true := by
  by_cases hname : name = "primary".toList
  · rw [hname, isPrimary, Json.field, Json.get?_removeField_self] at h
    cases h
  · rwa [isPrimary, Json.field_removeField_ne (Ne.symm hname)] at h

theorem Follows.removeSelected (hf : Follows data l) {current : List Json}
    (h : removeSelected (l.map Prod.fst) filter sub = .ok current) :
    Follows (data.setField "emails".toList (.arr current))
      (markSelected v filter sub .remove value l) := by
  unfold Scim.removeSelected at h
  unfold markSelected
  rw [if_pos rfl]
  cases sub with
  | none =>
    cases h
    rw [List.filter_map]
    exact hf.setEmails (hf.settled.filter _)
  | some sub =>
    have hcurrent : current = (l.map fun e =>
        (if filter.matches e.1 then e.1.removeField sub.name else e.1, e.2)).map Prod.fst := by
      cases sub with
      | value => cases h
      | _ =>
        cases h
        rw [List.map_map, List.map_map]
        rfl
    rw [hcurrent]
    refine hf.setEmails (hf.settled.map
      (f := fun e => if filter.matches e then e.removeField sub.name else e) fun e hyes => ?_)
    split_ifs at hyes
    · exact isPrimary_removeField hyes
    · exact hyes

/-- The one address that is selected becomes primary, and the others lose the mark. -/
theorem Follows.promote (hf : Follows data l) {change : Json → Json}
    (hone : (l.map Prod.fst).countP filter.matches = 1) :
    Follows (data.setField "emails".toList (.arr (setEmailPrimary
        ((l.map Prod.fst).map fun e => if filter.matches e then change e else e)
        ((l.map Prod.fst).findIdx filter.matches))))
      (l.map fun e => if filter.matches e.1 then (change e.1, true) else (demote e.1, false)) := by
  rw [setEmailPrimary_findIdx _ hone]
  have hl : Settled (l.map fun e =>
      if filter.matches e.1 then (change e.1, true) else (demote e.1, false)) := by
    rintro - e he hyes
    obtain ⟨e', -, rfl⟩ := List.mem_map.mp he
    split_ifs at hyes ⊢
    · rfl
    · rw [isPrimary_demote] at hyes
      cases hyes
  have hnew := hf.setEmails hl
  rw [List.map_map] at hnew ⊢
  refine (congrArg (fun es => Follows (data.setField "emails".toList (.arr es)) _)
    (List.map_congr_left fun e _ => ?_)).mp hnew
  simp only [Function.comp_apply]
  split_ifs <;> rfl

/-- A change of the selected addresses that makes none primary. -/
theorem Follows.change (hf : Follows data l) {change : Json → Json}
    (hchange : ∀ e, isPrimary (change e) = true → isPrimary e = true) :
    Follows (data.setField "emails".toList
        (.arr ((l.map Prod.fst).map fun e => if filter.matches e then change e else e)))
      (l.map fun e => (if filter.matches e.1 then change e.1 else e.1, e.2)) := by
  have hnew := hf.setEmails (hf.settled.map
    (f := fun e => if filter.matches e then change e else e) fun e hyes => by
      split_ifs at hyes
      · exact hchange e hyes
      · exact hyes)
  rw [List.map_map] at hnew ⊢
  exact hnew

theorem Follows.selected (hf : Follows data l)
    (h : patchMultiSelected v data .emails filter sub operation value = .ok data') :
    Follows data' (markSelected v filter sub operation value l) := by
  unfold patchMultiSelected at h
  have haddresses := hf.addresses
  unfold addressesOf at haddresses
  split at h
  · rename_i current hcurrent
    rw [show data.get? "emails".toList = some (.arr current) from hcurrent] at haddresses
    obtain rfl : current = l.map Prod.fst := haddresses
    by_cases hnone : (l.map Prod.fst).any filter.matches = false
    · rw [if_pos hnone] at h
      refine hf.noSelection (fun e he => ?_) h
      rw [List.any_eq_false] at hnone
      exact Bool.eq_false_iff.mpr (hnone e.1 (List.mem_map_of_mem he))
    rw [if_neg hnone] at h
    by_cases hremove : operation = .remove
    · rw [if_pos hremove] at h
      obtain ⟨current, hcurrent, h⟩ := bind_ok.mp h
      cases h
      rw [hremove]
      exact hf.removeSelected hcurrent
    · rw [if_neg hremove] at h
      obtain ⟨⟨fields, promote⟩, hread, h⟩ := bind_ok.mp h
      obtain ⟨hone, h⟩ := seq_ok.mp h
      cases h
      unfold markSelected
      rw [if_neg hremove, hread]
      cases promote with
      | true =>
        refine hf.promote ?_
        by_contra hmany
        exact require_ok.mp hone ⟨rfl, hmany⟩
      | false => exact hf.change fun e => readReplacement_isPrimary hread
  · rename_i hcurrent
    refine hf.noSelection (fun e he => ?_) h
    -- without a list there are no addresses
    have hnil : l.map Prod.fst = [] := by
      rw [← haddresses]
      split
      · rename_i emails hemails
        exact absurd hemails (hcurrent emails)
      · rfl
    rw [List.map_eq_nil_iff.mp hnil] at he
    cases he

end Selected

theorem Follows.field (hf : Follows data l) {operation : PatchOp} {f : Text × Json}
    (h : patchField v .users operation data f = .ok data') :
    Follows data' (markField v operation l f) := by
  obtain ⟨hwritable, -, hrest⟩ := patchField_effect h
  unfold markField
  split_ifs with hemails
  · unfold patchField at h
    obtain ⟨-, h⟩ := seq_ok.mp h
    rw [hemails] at h
    exact hf.root h
  · refine hf.of_get? (hrest _ fun hschemas => hwritable ?_) (hrest _ (Ne.symm hemails))
    rw [← hschemas]
    decide

theorem Follows.path (hf : Follows data l) {operation : PatchOp} {path : Text} {value : Json}
    (h : patchPath v .users operation data path value = .ok data') :
    Follows data' (markPath v operation path value l) := by
  unfold patchPath at h
  obtain ⟨found, hfound, h⟩ := bind_ok.mp h
  unfold markPath
  rw [hfound]
  cases found with
  | some found =>
    obtain ⟨field, filter, sub⟩ := found
    obtain ⟨hfield, h⟩ := seq_ok.mp h
    cases require_ok.mp hfield
    exact hf.selected h
  | none =>
    obtain ⟨found, hname, h⟩ := bind_ok.mp h
    dsimp only
    rw [hname]
    cases found with
    | some found => exact hf.of_get? (patchName_get? (by decide) h) (patchName_get? (by decide) h)
    | none =>
      dsimp only at h ⊢
      split_ifs with hemails hremove
      · unfold patchAttribute at h
        rw [hemails, hremove] at h
        obtain ⟨-, h⟩ := seq_ok.mp h
        cases h
        refine ⟨(Json.get?_removeField_ne (by decide)).trans hf.user, ?_, by simp [Settled]⟩
        rw [addressesOf, Json.get?_removeField_self, List.map_nil]
      · unfold patchAttribute at h
        obtain ⟨-, h⟩ := seq_ok.mp h
        obtain ⟨key, hkey, h⟩ := bind_ok.mp h
        obtain rfl := Option.some.inj (hemails.symm.trans (okOr_ok.mp hkey))
        obtain ⟨-, h⟩ := seq_ok.mp h
        rw [if_neg hremove] at h
        exact hf.root (seq_ok.mp h).2
      · obtain ⟨key, hkey, hwritable, -, hrest⟩ := patchAttribute_effect h
        refine hf.of_get? (hrest _ fun hschemas => hwritable ?_) (hrest _ fun hne => hemails ?_)
        · rw [← hschemas]
          decide
        · rw [hkey, hne]

theorem Follows.operation (hf : Follows data l) {op : Json}
    (h : patchOperation v .users data op = .ok data') : Follows data' (markOperation v l op) := by
  unfold patchOperation at h
  obtain ⟨operation, hop, h⟩ := bind_ok.mp h
  unfold markOperation
  rw [hop]
  dsimp only
  by_cases hnull : (op.field "path".toList).isNull = true
  · rw [if_pos hnull] at h ⊢
    obtain ⟨-, h⟩ := seq_ok.mp h
    obtain ⟨value, hvalue, h⟩ := bind_ok.mp h
    rw [hvalue]
    exact foldlM_simulation (R := Follows) (g := markField v operation)
      (fun f s s' m hstep hm => hm.field hstep) h hf
  · rw [if_neg hnull] at h ⊢
    obtain ⟨path, hpath, h⟩ := bind_ok.mp h
    rw [okOr_ok.mp hpath, Option.getD_some]
    exact hf.path h

/-! ## Attributes of the other kind -/

/-- **A resource with an attribute of the other kind is not written.** -/
theorem writeLocal_foreign {kind : Kind} {name : Text} (hname : name ∈ foreign kind)
    (hdata : data.get? name ≠ none) (actor : Actor) (q : Request) (existing : Option Record)
    (label : Text) (t : Tables) :
    ∃ e, writeLocal v actor q kind existing label data t = .error e := by
  cases hwrite : writeLocal v actor q kind existing label data t with
  | error e => exact ⟨e, rfl⟩
  | ok written =>
    unfold writeLocal at hwrite
    cases kind with
    | users =>
      obtain ⟨account, haccount, -⟩ := bind_ok.mp hwrite
      rw [List.mem_singleton.mp hname] at hdata
      exact absurd (require_ok.mp (seq_ok.mp haccount).1) hdata
    | groups =>
      obtain ⟨members, hmembers, -⟩ := bind_ok.mp hwrite
      have hall := List.all_eq_true.mp (require_ok.mp (seq_ok.mp hmembers).1)
      -- the attribute is among the fields, and not one that a group may have
      cases data with
      | obj fields =>
        obtain ⟨value, hvalue⟩ := Option.ne_none_iff_exists'.mp hdata
        obtain ⟨f, hf, -⟩ := Option.map_eq_some_iff.mp hvalue
        have hfield := of_decide_eq_true (hall f (List.mem_of_find?_eq_some hf))
        have hkey : f.1 = name := of_decide_eq_true (List.find?_some hf :)
        rw [hkey] at hfield
        have hdisjoint : ∀ name ∈ foreign .groups, name ∉ groupFields := by decide
        exact absurd hfield (hdisjoint name hname)
      | _ => exact absurd rfl hdata

/-! ## Patches -/

variable (v)

/-- A resource as it is stored: it has one of the two schemas, no attribute of the other kind, and
the addresses of a user are valid. -/
structure ValidView (view : Json) : Prop where
  schemas : ∃ kind : Kind, view.get? "schemas".toList = some (.arr [.str kind.schema])
  foreign : ∀ name ∈ foreign (patchKind view), view.get? name = none
  addresses : patchKind view = .users → validateEmailEntries v view = .ok ()

variable {v}

theorem get?_of_patchKind {view : Json} (h : patchKind view = .users) :
    view.get? "schemas".toList = some (.arr [.str USER]) := by
  unfold patchKind at h
  split_ifs at h with huser
  have hfield := of_decide_eq_true huser
  unfold Json.field at hfield
  cases hget : view.get? "schemas".toList with
  | none =>
    rw [hget] at hfield
    cases hfield
  | some schemas =>
    rw [hget] at hfield
    exact congrArg some hfield

theorem patchesEmails_eq (op : Json) : patchesEmails op = addresses op "emails".toList := by
  have hname : decide ("emails".toList = "name".toList) = false := by decide
  unfold patchesEmails addresses
  simp only [hname, Bool.false_and, Bool.or_false]

/-- **What an accepted patch keeps.** The id, the schemas, the meta data and the groups stay, and so
does every attribute that no operation names. An attribute of the other kind comes from an operation
without a path only, is never a name, and what has one is not written. The addresses of a user are
valid, and if the last operation that made an address primary left it there, the primary address is
one that this operation made primary. -/
theorem patchResource_keeps (old input : Json) (hview : ValidView v old)
    (h : patchResource v old input = .ok data) :
    (∀ name ∈ readOnly, data.get? name = old.get? name) ∧
    (∀ name, (∀ op ∈ items input "Operations".toList, addresses op name = false) →
      data.get? name = old.get? name) ∧
    (∀ name ∈ foreign (patchKind old), data.get? name ≠ none → name ≠ "name".toList ∧
      (∃ op ∈ items input "Operations".toList, addresses op name = true ∧
        (op.field "path".toList).isNull = true) ∧
      ∀ actor q existing label t, ∃ e,
        writeLocal v actor q (patchKind old) existing label data t = .error e) ∧
    (patchKind old = .users → ValidAddresses (addressesOf data) ∧
      addressesOf data = (markResource v old input).map Prod.fst ∧
      Settled (markResource v old input)) := by
  obtain ⟨hrun, hvalidated⟩ := patchResource_ok h
  have hsame : ∀ name, data.get? name = old.get? name ∨
      name ∉ readOnly ∧ ∃ op ∈ items input "Operations".toList, addresses op name = true := by
    intro name
    refine foldlM_invariant_mem (P := fun d : Json => d.get? name = old.get? name ∨ _)
      (fun op hop d d' hstep hd => ?_) hrun (.inl rfl)
    obtain hkeep | hchange := patchOperation_get? hstep name
    · rwa [hkeep]
    · exact .inr ⟨hchange.writable, op, hop, hchange.addressed⟩
  have hunaddressed : ∀ name, (∀ op ∈ items input "Operations".toList, addresses op name = false) →
      data.get? name = old.get? name := by
    intro name hnone
    refine (hsame name).resolve_right ?_
    rintro ⟨-, op, hop, hyes⟩
    rw [hnone op hop] at hyes
    cases hyes
  refine ⟨fun name hname => (hsame name).resolve_right fun hchange => hchange.1 hname, hunaddressed,
    fun name hname hdata => ?_, fun hkind => ?_⟩
  · have hforeign : data.get? name = none ∨ name ≠ "name".toList ∧
        ∃ op ∈ items input "Operations".toList, addresses op name = true ∧
          (op.field "path".toList).isNull = true := by
      refine foldlM_invariant_mem (P := fun d : Json => d.get? name = none ∨ _)
        (fun op hop d d' hstep hd => ?_) hrun (.inl (hview.foreign name hname))
      obtain hkeep | hchange := patchOperation_get? hstep name
      · rwa [hkeep]
      · obtain hnone | ⟨hne, hnull⟩ := hchange.foreign hname
        · exact .inl hnone
        · exact .inr ⟨hne, op, hop, hchange.addressed, hnull⟩
    obtain ⟨hne, hop⟩ := hforeign.resolve_left hdata
    exact ⟨hne, hop, writeLocal_foreign hname hdata⟩
  · have hfollows : Follows data (markResource v old input) := by
      rw [hkind] at hrun
      refine foldlM_simulation (R := Follows) (g := markOperation v)
        (fun op s s' m hstep hm => hm.operation hstep) hrun ⟨get?_of_patchKind hkind, ?_, ?_⟩
      · rw [List.map_map]
        exact (List.map_id _).symm
      · rintro ⟨e, he, hmark⟩
        obtain ⟨e', -, rfl⟩ := List.mem_map.mp he
        cases hmark
    refine ⟨?_, hfollows.addresses, hfollows.settled⟩
    by_cases hemails : (items input "Operations".toList).any patchesEmails = true
    · exact validateEmailEntries_ok (hvalidated hemails hkind)
    · have hold := validateEmailEntries_ok (hview.addresses hkind)
      rw [List.any_eq_true, not_exists] at hemails
      rw [addressesOf, hunaddressed _ fun op hop => ?_]
      · exact hold
      · rw [← patchesEmails_eq]
        exact Bool.eq_false_iff.mpr fun hyes => hemails op ⟨hop, hyes⟩

end

/-- A user with one address. -/
def adaView : Json := .obj
  [("emails".toList, .arr [.obj [("primary".toList, .bool true),
    ("value".toList, .str "a@x".toList)]]),
    ("schemas".toList, .arr [.str USER]), ("userName".toList, .str "ada".toList)]

theorem adaView_valid : ValidView plainEnv adaView where
  schemas := ⟨.users, by decide⟩
  foreign := by decide
  addresses _ := by rfl

/-- A request with operations. -/
def patchOf (operations : List Json) : Json :=
  .obj [("Operations".toList, .arr operations), ("schemas".toList, .arr [.str PATCH])]

/-- Another address becomes primary. -/
def addWork : Json := patchOf [.obj [("op".toList, .str "add".toList),
  ("path".toList, .str "Emails".toList), ("value".toList,
    .obj [("primary".toList, .bool true), ("value".toList, .str "b@x".toList)])]]

theorem patchResource_keeps_userName :
    ∃ data, patchResource plainEnv adaView addWork = .ok data ∧
      data.get? "userName".toList = some (.str "ada".toList) ∧
      (addressesOf data).map isPrimary = [false, true] := by
  have hok : (patchResource plainEnv adaView addWork).isOk = true := by decide
  cases hpatch : patchResource plainEnv adaView addWork with
  | error e =>
    rw [hpatch] at hok
    cases hok
  | ok data =>
    obtain ⟨-, hkept, -, haddresses⟩ := patchResource_keeps adaView addWork adaView_valid hpatch
    refine ⟨data, rfl, ?_, ?_⟩
    · rw [hkept "userName".toList (by decide)]
      rfl
    · rw [(haddresses (by decide)).2.1]
      decide

/-- An operation without a path that gives a user members. -/
def addMembers : Json := patchOf [.obj [("op".toList, .str "add".toList), ("value".toList,
  .obj [("members".toList, .obj [("value".toList, .str "r1".toList)])])]]

/-- Two addresses, of which the first is primary. -/
def twoAddresses (second : Bool) : List Json :=
  [.obj [("primary".toList, .bool true), ("value".toList, .str "b@x".toList)],
    .obj [("primary".toList, .bool second), ("value".toList, .str "c@x".toList)]]

/-- A user with these addresses. -/
def adaAt (second : Bool) : Json := .obj [("emails".toList, .arr (twoAddresses second)),
  ("schemas".toList, .arr [.str USER]), ("userName".toList, .str "ada".toList)]

/-- Two primary addresses come at once. -/
def replaceBoth : Json := .obj [("op".toList, .str "replace".toList),
  ("path".toList, .str "emails".toList), ("value".toList, .arr (twoAddresses true))]

def secondPath : Text := "emails[value eq \"c@x\"].primary".toList

/-- The second address is not primary any more. -/
def demoteSecond : Json := .obj [("op".toList, .str "replace".toList),
  ("path".toList, .str secondPath), ("value".toList, .bool false)]

theorem patchOperation_demoteSecond :
    patchOperation plainEnv .users (adaAt true) demoteSecond = .ok (adaAt false) := by
  have hnull : ¬ (demoteSecond.field "path".toList).isNull = true := Bool.false_ne_true
  have htext : (demoteSecond.field "path".toList).asStr = some secondPath := rfl
  have hpath : patchValuePath secondPath =
      .ok (some (.emails, .predicate (.emailText "value".toList "c@x".toList), some .primary)) := rfl
  have hold : (adaAt true).get? Multi.emails.name = some (.arr (twoAddresses true)) := rfl
  refine bind_ok.mpr ⟨.replace, rfl, ?_⟩
  rw [if_neg hnull]
  refine bind_ok.mpr ⟨secondPath, okOr_ok.mpr htext, bind_ok.mpr ⟨_, hpath, ?_⟩⟩
  refine seq_ok.mpr ⟨require_ok.mpr rfl, ?_⟩
  rw [patchMultiSelected, hold]
  rfl

theorem patchResource_replaceBoth :
    patchResource plainEnv adaView (patchOf [replaceBoth, demoteSecond]) = .ok (adaAt false) := by
  have hfirst : patchOperation plainEnv .users adaView replaceBoth = .ok (adaAt true) := rfl
  have hkind : patchKind adaView = .users := by decide
  have hvalid : validateEmailEntries plainEnv (adaAt false) = .ok () := rfl
  refine seq_ok.mpr ⟨require_ok.mpr rfl, seq_ok.mpr ⟨require_ok.mpr (by decide), ?_⟩⟩
  rw [hkind]
  refine bind_ok.mpr ⟨adaAt false, bind_ok.mpr ⟨_, hfirst, bind_ok.mpr
    ⟨_, patchOperation_demoteSecond, rfl⟩⟩, seq_ok.mpr ⟨?_, rfl⟩⟩
  rw [hvalid, ite_self]

/-- **An operation without a path gives a user members**, where one with a path is refused. And of
two addresses that one operation makes primary, the first can be the one that stays. -/
theorem patchResource_adds_members :
    ValidView plainEnv adaView ∧ patchKind adaView = .users ∧
      (∃ data, patchResource plainEnv adaView addMembers = .ok data ∧
        data.get? "members".toList ≠ none) ∧
      ∃ data, patchResource plainEnv adaView (patchOf [replaceBoth, demoteSecond]) = .ok data ∧
        (addressesOf data).map (fun email => (addressKey email, isPrimary email)) =
          [("b@x".toList, true), ("c@x".toList, false)] := by
  refine ⟨adaView_valid, by decide, ⟨_, rfl, ?_⟩, _, patchResource_replaceBoth, ?_⟩
  · decide
  · decide

end RiAuth.Scim
