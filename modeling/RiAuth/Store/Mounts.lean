import RiAuth.Basic
import RiAuth.Lib.Framing

/-!
# The mount that holds a path

The embedded store must not lie on a filesystem that hosts share. Its mount is looked up in the
table that Linux shows: of all mounts whose point is at or above the path, the deepest one.

* `rows`: what is read of a table; `deepest`: the lookup;
* `Mount`, `Mount.row`: the mounts behind a table, and how they are shown;
* `rows_table`: a table is read back as the mounts it shows;
* `Reaches`: the mount that a path leads to, where a mount hides what lies at or below its point;
* **`deepest_reaches`**: the lookup finds that mount if the last mount at or above the path is the
  deepest one, and only then.
-/

namespace RiAuth.Ownership

open Framing

/-! ## The lookup -/

/-- Filesystems that hosts share. -/
def SHARED : List String :=
  ["nfs", "nfs4", "cifs", "smb3", "smbfs", "ncpfs", "afs", "coda", "ceph", "glusterfs", "lustre",
    "gpfs", "beegfs", "pvfs2", "ocfs2", "gfs2", "davfs", "fuse.sshfs", "fuse.ceph-fuse",
    "fuse.glusterfs", "fuse.s3fs", "fuse.gcsfuse", "fuse.rclone", "fuse.juicefs", "fuse.goofys",
    "fuse.blobfuse", "fuse.blobfuse2", "fuse.mountpoint-s3"]

def utf8 (t : Text) : Bytes := t.flatMap String.utf8EncodeChar

/-- `String::from_utf8_lossy`: the text that the bytes encode, and some text for other bytes. -/
structure Lossy where
  decode : Bytes → Text
  decode_utf8 : ∀ t, decode (utf8 t) = t

/-- A component of a path. -/
inductive Component where
  | root
  | current
  | name (t : Text)
deriving DecidableEq

/-- `Path::components`: empty names and those of a dot are left out, except for a dot in front. -/
def components (t : Text) : List Component :=
  let names := t.splitOn '/'
  (if t.head? = some '/' then [.root] else if names.head? = some ['.'] then [.current] else []) ++
    (names.filter fun name => name ≠ [] ∧ name ≠ ['.']).map .name

/-- A digit up to the given one. -/
def octal (high digit : UInt8) : Prop := 48 ≤ digit ∧ digit ≤ high

instance (high digit : UInt8) : Decidable (octal high digit) :=
  inferInstanceAs (Decidable (48 ≤ digit ∧ digit ≤ high))

/-- Octal escapes become bytes. -/
def unescapeBytes : Bytes → Bytes
  | first :: a :: b :: c :: rest =>
    if first = 92 ∧ octal 51 a ∧ octal 55 b ∧ octal 55 c then
      ((a - 48) <<< 6 ||| (b - 48) <<< 3 ||| (c - 48)) :: unescapeBytes rest
    else first :: unescapeBytes (a :: b :: c :: rest)
  | first :: rest => first :: unescapeBytes rest
  | [] => []

/-- A field without escapes. -/
def unescape (lossy : Lossy) (field : Text) : Text := lossy.decode (unescapeBytes (utf8 field))

/-- A line without the carriage return at its end. -/
def withoutCr (line : Text) : Text := if line.getLast? = some '\r' then line.dropLast else line

/-- `str::lines`: an end of line may have a carriage return, and the last line needs no end. -/
def lines (t : Text) : List Text :=
  let parts := t.splitOn '\n'
  parts.dropLast.map withoutCr ++ parts.getLast?.toList.filter (· ≠ [])

/-- Mount ID, mount point and type of a row. -/
def row (lossy : Lossy) (line : Text) : Option (Text × Text × Text) := do
  let fields := line.splitOn ' '
  let id ← fields[0]?
  let point ← fields[4]?
  let kind ← ((fields.drop 5).dropWhile (· ≠ ['-']))[1]?
  some (id, unescape lossy point, kind)

/-- The rows that can be read. -/
def rows (lossy : Lossy) (mountinfo : Text) : List (Text × Text × Text) :=
  (lines mountinfo).filterMap (row lossy)

/-- One row of the loop: the depth, ID and type of the deepest mount so far. -/
def deeper (path : List Component) (deepest : Option (ℕ × Text × Text)) (r : Text × Text × Text) :
    Option (ℕ × Text × Text) :=
  let point := components r.2.1
  if point <+: path then
    if deepest.all fun d => d.1 ≤ point.length then some (point.length, r.1, r.2.2) else deepest
  else deepest

/-- The components of an absolute path with these names, as `to_string_lossy` shows them: it reads
every name by itself, since a slash is never part of anything longer. -/
def shown (lossy : Lossy) (path : List Bytes) : List Component :=
  .root :: (path.map lossy.decode).map .name

/-- The mount that a path lies on. -/
def deepest (lossy : Lossy) (mountinfo : Text) (path : List Bytes) : Option (Text × Text) :=
  ((rows lossy mountinfo).foldl (deeper (shown lossy path)) none).map Prod.snd

/-- The shared filesystem a path lies on. -/
def sharedFilesystem (lossy : Lossy) (mountinfo : Text) (path : List Bytes) : Option Text :=
  ((deepest lossy mountinfo path).map Prod.snd).filter fun kind => kind ∈ SHARED.map String.toList

/-! ## Mounts -/

/-- A text that stands between blanks in a row. -/
structure Field where
  val : Text
  blankless : ' ' ∉ val ∧ '\n' ∉ val

/-- A name in a normalized path. -/
structure Name where
  val : Text
  normal : val ≠ [] ∧ val ≠ ['.'] ∧ val ≠ ['.', '.'] ∧ '/' ∉ val

/-- A mount, with all that its row shows. Only the field before the type is a lone dash. -/
structure Mount where
  id : Field
  parent : Field
  device : Field
  root : Field
  point : List Name
  options : Field
  optional : List Field
  kind : Field
  source : Field
  superOptions : Field
  plain : ∀ field ∈ options :: optional, field.val ≠ ['-']

/-- A character of a mount point, as octal digits if it would break the row. -/
def escape (c : Char) : Text :=
  match c with
  | ' ' => ['\\', '0', '4', '0']
  | '\t' => ['\\', '0', '1', '1']
  | '\n' => ['\\', '0', '1', '2']
  | '\\' => ['\\', '1', '3', '4']
  | c => [c]

/-- A mount point as the kernel spells it. -/
def pointText (point : List Name) : Text :=
  if point = [] then ['/'] else point.flatMap fun name => '/' :: name.val

/-- All fields of a row but the last one. -/
def Mount.fields (m : Mount) : List Text :=
  [m.id.val, m.parent.val, m.device.val, m.root.val, (pointText m.point).flatMap escape] ++
    (m.options :: m.optional).map Field.val ++ [['-'], m.kind.val, m.source.val]

/-- A mount as the kernel lists it. -/
def Mount.row (m : Mount) : Text := [' '].intercalate (m.fields ++ [m.superOptions.val])

/-- The table of mounts, in the order in which they were made. -/
def table (mounts : List Mount) : Text := mounts.flatMap fun m => m.row ++ ['\n']

/-! ## Reading a table back -/

theorem utf8_append (s t : Text) : utf8 (s ++ t) = utf8 s ++ utf8 t := List.flatMap_append

variable {c d : Char}

theorem utf8EncodeChar_ne (h : c ≠ '\\') : ∀ b ∈ String.utf8EncodeChar c, b ≠ 92 := by
  have hval : c.val.toNat ≠ 92 := fun heq => h (Char.ext (UInt32.toNat_inj.mp heq))
  have hne : ∀ n, n % 256 ≠ 92 → UInt8.ofNat n ≠ 92 := by
    intro n hn heq
    rw [← UInt8.toNat_inj, UInt8.toNat_ofNat'] at heq
    exact hn heq
  unfold String.utf8EncodeChar
  dsimp only
  split_ifs with h₁ h₂ h₃
  · exact List.forall_mem_singleton.mpr (hne _ (by omega))
  all_goals
    simp only [List.forall_mem_cons, List.not_mem_nil, false_imp_iff, implies_true, and_true]
  -- every byte of a longer encoding is at least 128
  · exact ⟨hne _ (by omega), hne _ (by omega)⟩
  · exact ⟨hne _ (by omega), hne _ (by omega), hne _ (by omega)⟩
  · exact ⟨hne _ (by omega), hne _ (by omega), hne _ (by omega), hne _ (by omega)⟩

/-- A byte that is no backslash is kept. -/
theorem unescapeBytes_cons {b : UInt8} (h : b ≠ 92) (rest : Bytes) :
    unescapeBytes (b :: rest) = b :: unescapeBytes rest := by
  rcases rest with - | ⟨x, - | ⟨y, - | ⟨z, rest⟩⟩⟩
  · rfl
  · rfl
  · rfl
  · rw [unescapeBytes, if_neg fun hescape => h hescape.1]

theorem unescapeBytes_append {bytes : Bytes} (h : ∀ b ∈ bytes, b ≠ 92) (rest : Bytes) :
    unescapeBytes (bytes ++ rest) = bytes ++ unescapeBytes rest := by
  induction bytes with
  | nil => rfl
  | cons b bytes ih =>
    obtain ⟨hb, hbytes⟩ := List.forall_mem_cons.mp h
    rw [List.cons_append, unescapeBytes_cons hb, ih hbytes, List.cons_append]

theorem unescapeBytes_escape (c : Char) (rest : Bytes) :
    unescapeBytes (utf8 (escape c) ++ rest) = utf8 [c] ++ unescapeBytes rest := by
  unfold escape
  split
  · rfl
  · rfl
  · rfl
  · rfl
  · next hslash =>
    refine unescapeBytes_append ?_ rest
    rw [utf8, List.flatMap_singleton]
    exact utf8EncodeChar_ne hslash

/-- **A point is read back.** -/
theorem unescape_escape (lossy : Lossy) (t : Text) : unescape lossy (t.flatMap escape) = t := by
  have hbytes : unescapeBytes (utf8 (t.flatMap escape)) = utf8 t := by
    induction t with
    | nil => rfl
    | cons c t ih =>
      rw [List.flatMap_cons, utf8_append, unescapeBytes_escape, ih, ← utf8_append,
        List.singleton_append]
  rw [unescape, hbytes, lossy.decode_utf8]

theorem intercalate_cons (c : Char) (t : Text) (l : List Text) :
    [c].intercalate (t :: l) = t ++ l.flatMap (c :: ·) := by
  induction l generalizing t with
  | nil => simp [List.intercalate]
  | cons s l ih =>
    rw [List.intercalate_cons_cons, ih, List.flatMap_cons]
    simp

theorem intercalate_concat {l : List Text} (hl : l ≠ []) (last : Text) :
    [c].intercalate (l ++ [last]) = [c].intercalate l ++ c :: last := by
  cases l with
  | nil => exact absurd rfl hl
  | cons t l =>
    rw [List.cons_append, intercalate_cons, intercalate_cons, List.flatMap_append,
      List.flatMap_singleton, List.append_assoc]

theorem components_pointText (point : List Name) :
    components (pointText point) = .root :: (point.map Name.val).map .name := by
  cases point with
  | nil => rfl
  | cons name point =>
    have htext : pointText (name :: point) =
        ['/'].intercalate ([] :: (name :: point).map Name.val) := by
      rw [intercalate_cons, List.nil_append, List.flatMap_map]
      rfl
    have hnames : ∀ t ∈ (name :: point).map Name.val, t ≠ [] ∧ t ≠ ['.'] ∧ '/' ∉ t := by
      intro t ht
      obtain ⟨n, -, rfl⟩ := List.mem_map.mp ht
      exact ⟨n.normal.1, n.normal.2.1, n.normal.2.2.2⟩
    have hsplit : (pointText (name :: point)).splitOn '/' =
        [] :: (name :: point).map Name.val := by
      rw [htext, List.splitOn_intercalate '/' ?_ (List.cons_ne_nil _ _)]
      exact List.forall_mem_cons.mpr ⟨List.not_mem_nil, fun t ht => (hnames t ht).2.2⟩
    have hfilter : ([] :: (name :: point).map Name.val).filter
        (fun t : Text => t ≠ [] ∧ t ≠ ['.']) = (name :: point).map Name.val := by
      rw [List.filter_cons_of_neg (by simp), List.filter_eq_self]
      intro t ht
      exact decide_eq_true ⟨(hnames t ht).1, (hnames t ht).2.1⟩
    have hhead : (pointText (name :: point)).head? = some '/' := rfl
    rw [components, hsplit, hfilter, if_pos hhead]
    rfl

theorem notMem_intercalate {l : List Text} (hne : c ≠ d) (h : ∀ t ∈ l, c ∉ t) :
    c ∉ [d].intercalate l := by
  cases l with
  | nil => exact List.not_mem_nil
  | cons t l =>
    obtain ⟨ht, hl⟩ := List.forall_mem_cons.mp h
    rw [intercalate_cons, List.mem_append, List.mem_flatMap]
    rintro (hc | ⟨s, hs, hc⟩)
    · exact ht hc
    · exact (List.mem_cons.mp hc).elim hne (hl s hs)

theorem notMem_escape (hd : d = ' ' ∨ d = '\n') : d ∉ escape c := by
  unfold escape
  split
  · rcases hd with rfl | rfl <;> decide
  · rcases hd with rfl | rfl <;> decide
  · rcases hd with rfl | rfl <;> decide
  · rcases hd with rfl | rfl <;> decide
  · next hblank _ hline _ =>
    rw [List.mem_singleton]
    rintro rfl
    exact hd.elim hblank hline

/-- No field breaks the row. -/
theorem Mount.notMem_fields (m : Mount) (hd : d = ' ' ∨ d = '\n') : ∀ t ∈ m.fields, d ∉ t := by
  have hfield : ∀ f : Field, d ∉ f.val := fun f => by
    rcases hd with rfl | rfl
    · exact f.blankless.1
    · exact f.blankless.2
  have hpoint : d ∉ (pointText m.point).flatMap escape := by
    rw [List.mem_flatMap]
    rintro ⟨c, -, hc⟩
    exact notMem_escape hd hc
  have hdash : d ∉ ['-'] := by rcases hd with rfl | rfl <;> decide
  intro t ht
  simp only [Mount.fields, List.mem_append, List.mem_cons, List.mem_map, List.not_mem_nil,
    or_false] at ht
  rcases ht with ((rfl | rfl | rfl | rfl | rfl) | ⟨f, -, rfl⟩) | (rfl | rfl | rfl)
  · exact hfield m.id
  · exact hfield m.parent
  · exact hfield m.device
  · exact hfield m.root
  · exact hpoint
  · exact hfield f
  · exact hdash
  · exact hfield m.kind
  · exact hfield m.source

/-- What is read of a row does not depend on its last field. -/
theorem row_fields (lossy : Lossy) (m : Mount) {last : Text} (hlast : ' ' ∉ last) :
    row lossy ([' '].intercalate (m.fields ++ [last])) =
      some (m.id.val, pointText m.point, m.kind.val) := by
  have hsplit : ([' '].intercalate (m.fields ++ [last])).splitOn ' ' = m.fields ++ [last] := by
    refine List.splitOn_intercalate ' ' ?_ (List.concat_ne_nil _ _)
    intro t ht
    rcases List.mem_append.mp ht with ht | ht
    · exact m.notMem_fields (.inl rfl) t ht
    · rwa [List.mem_singleton.mp ht]
  have hkind : ((m.fields ++ [last]).drop 5).dropWhile (· ≠ ['-']) =
      [['-'], m.kind.val, m.source.val, last] := by
    have hdrop : (m.fields ++ [last]).drop 5 = (m.options :: m.optional).map Field.val ++
        [['-'], m.kind.val, m.source.val, last] := by
      simp [Mount.fields]
    rw [hdrop, List.dropWhile_append_of_pos, List.dropWhile_cons_of_neg (by decide)]
    intro t ht
    obtain ⟨f, hf, rfl⟩ := List.mem_map.mp ht
    exact decide_eq_true (m.plain f hf)
  unfold row
  rw [hsplit]
  dsimp only
  rw [hkind]
  change some (m.id.val, unescape lossy ((pointText m.point).flatMap escape), m.kind.val) = _
  rw [unescape_escape]

theorem withoutCr_concat (t : Text) (c : Char) :
    withoutCr (t ++ [c]) = if c = '\r' then t else t ++ [c] := by
  rw [withoutCr, List.getLast?_concat, List.dropLast_concat]
  simp only [Option.some.injEq]

theorem withoutCr_append (t last : Text) :
    withoutCr (t ++ ' ' :: last) = t ++ ' ' :: withoutCr last := by
  cases last using List.reverseRecOn with
  | nil => exact withoutCr_concat t ' '
  | append_singleton last c =>
    have hconcat : t ++ ' ' :: (last ++ [c]) = t ++ ' ' :: last ++ [c] :=
      (List.append_assoc t (' ' :: last) [c]).symm
    rw [hconcat, withoutCr_concat, withoutCr_concat]
    split_ifs
    · rfl
    · exact hconcat.symm

theorem row_withoutCr (lossy : Lossy) (m : Mount) :
    row lossy (withoutCr m.row) = some (m.id.val, pointText m.point, m.kind.val) := by
  have hlast : ' ' ∉ withoutCr m.superOptions.val := by
    unfold withoutCr
    split_ifs
    · exact fun h => m.superOptions.blankless.1 (List.mem_of_mem_dropLast h)
    · exact m.superOptions.blankless.1
  have hfields : m.fields ≠ [] := List.cons_ne_nil _ _
  rw [Mount.row, intercalate_concat hfields, withoutCr_append, ← intercalate_concat hfields]
  exact row_fields lossy m hlast

theorem lines_table (mounts : List Mount) :
    lines (table mounts) = mounts.map fun m => withoutCr m.row := by
  have htable : table mounts = ['\n'].intercalate (mounts.map Mount.row ++ [[]]) := by
    induction mounts with
    | nil => rfl
    | cons m mounts ih =>
      rw [List.map_cons, List.cons_append, List.intercalate_cons_of_ne_nil (List.concat_ne_nil _ _),
        ← ih]
      rfl
  have hsplit : (table mounts).splitOn '\n' = mounts.map Mount.row ++ [[]] := by
    rw [htable]
    refine List.splitOn_intercalate '\n' ?_ (List.concat_ne_nil _ _)
    intro t ht
    rcases List.mem_append.mp ht with ht | ht
    · obtain ⟨m, -, rfl⟩ := List.mem_map.mp ht
      refine notMem_intercalate (by decide) fun t ht => ?_
      rcases List.mem_append.mp ht with ht | ht
      · exact m.notMem_fields (.inr rfl) t ht
      · rw [List.mem_singleton.mp ht]
        exact m.superOptions.blankless.2
    · rw [List.mem_singleton.mp ht]
      exact List.not_mem_nil
  rw [lines, hsplit, List.dropLast_concat, List.getLast?_concat, List.map_map]
  exact List.append_nil _

/-- **A table is read back as the mounts that it shows.** -/
theorem rows_table (lossy : Lossy) (mounts : List Mount) :
    rows lossy (table mounts) = mounts.map fun m => (m.id.val, pointText m.point, m.kind.val) := by
  rw [rows, lines_table, List.filterMap_map]
  exact (List.filterMap_congr fun m _ => row_withoutCr lossy m).trans
    (congrFun List.filterMap_eq_map mounts)

/-! ## Where a path leads -/

/-- The names of the mount point. -/
def Mount.names (m : Mount) : List Text := m.point.map Name.val

/-- The point is at or above the path. -/
def Mount.Over (m : Mount) (path : List Bytes) : Prop := m.names.map utf8 <+: path

instance (m : Mount) (path : List Bytes) : Decidable (m.Over path) :=
  inferInstanceAs (Decidable (m.names.map utf8 <+: path))

/-- The mounts that can be reached, after one more: it hides those at or below its point. -/
def mountOn (visible : List Mount) (m : Mount) : List Mount :=
  visible.filter (fun k => ¬ m.names <+: k.names) ++ [m]

/-- What can be reached when all are mounted. -/
def visible (mounts : List Mount) : List Mount := mounts.foldl mountOn []

/-- The path leads to the mount: of those that can be reached, it has the deepest point above. -/
def Reaches (mounts : List Mount) (path : List Bytes) (m : Mount) : Prop :=
  m ∈ visible mounts ∧ m.Over path ∧ ∀ k ∈ visible mounts, k.Over path → k.names <+: m.names

/-- The last mount at or above the path. -/
def lastOver (mounts : List Mount) (path : List Bytes) : Option Mount :=
  (mounts.filter (·.Over path)).getLast?

theorem lastOver_append (mounts more : List Mount) (path : List Bytes) :
    lastOver (mounts ++ more) path = (lastOver more path).or (lastOver mounts path) := by
  rw [lastOver, List.filter_append, List.getLast?_append]
  rfl

theorem lastOver_singleton (m : Mount) (path : List Bytes) :
    lastOver [m] path = if m.Over path then some m else none := by
  unfold lastOver
  by_cases h : m.Over path <;> simp [h]

theorem mem_of_lastOver {mounts : List Mount} {path : List Bytes} {m : Mount}
    (h : lastOver mounts path = some m) : m ∈ mounts ∧ m.Over path := by
  have hmem := List.mem_filter.mp (List.mem_of_getLast? h)
  exact ⟨hmem.1, of_decide_eq_true hmem.2⟩

section

variable {lossy : Lossy} {mounts : List Mount} {path : List Bytes} {m k : Mount}

theorem Lossy.utf8_injective (lossy : Lossy) : Function.Injective utf8 :=
  Function.LeftInverse.injective lossy.decode_utf8

theorem mem_visible_concat {x : Mount} :
    m ∈ visible (mounts ++ [x]) ↔ m ∈ visible mounts ∧ ¬ x.names <+: m.names ∨ m = x := by
  rw [visible, List.foldl_concat, mountOn, List.mem_append, List.mem_filter, List.mem_singleton,
    decide_eq_true_eq]
  rfl

/-- **A path leads to the last mount at or above it.** -/
theorem reaches_iff (lossy : Lossy) : Reaches mounts path m ↔ lastOver mounts path = some m := by
  induction mounts using List.reverseRecOn generalizing m with
  | nil =>
    constructor
    · rintro ⟨hmem, -⟩
      exact absurd hmem List.not_mem_nil
    · rintro ⟨⟩
  | append_singleton mounts x ih =>
    rw [lastOver_append, lastOver_singleton]
    have hx : x ∈ visible (mounts ++ [x]) := mem_visible_concat.mpr (.inr rfl)
    by_cases hover : x.Over path
    · -- it hides the others, unless they are above it
      rw [if_pos hover, Option.some_or, Option.some.injEq]
      constructor
      · rintro ⟨hmem, -, hdeepest⟩
        rcases mem_visible_concat.mp hmem with ⟨-, hhidden⟩ | rfl
        · exact absurd (hdeepest x hx hover) hhidden
        · rfl
      · rintro rfl
        refine ⟨hx, hover, fun k hk hkover => ?_⟩
        rcases mem_visible_concat.mp hk with ⟨-, hhidden⟩ | rfl
        · rcases List.prefix_or_prefix_of_prefix hkover hover with h | h
          · exact (List.prefix_map_iff_of_injective lossy.utf8_injective).mp h
          · exact absurd ((List.prefix_map_iff_of_injective lossy.utf8_injective).mp h) hhidden
        · exact List.prefix_rfl
    · -- it is beside the path or below it, and hides nothing above the path
      have hkept : ∀ k : Mount, k.Over path →
          (k ∈ visible (mounts ++ [x]) ↔ k ∈ visible mounts) := by
        intro k hk
        rw [mem_visible_concat]
        constructor
        · rintro (⟨hmem, -⟩ | rfl)
          · exact hmem
          · exact absurd hk hover
        · exact fun hmem => .inl ⟨hmem, fun h => hover ((h.map utf8).trans hk)⟩
      rw [if_neg hover, Option.none_or, ← ih]
      constructor
      · rintro ⟨hmem, hm, hdeepest⟩
        exact ⟨(hkept m hm).mp hmem, hm, fun k hk hkover =>
          hdeepest k ((hkept k hkover).mpr hk) hkover⟩
      · rintro ⟨hmem, hm, hdeepest⟩
        exact ⟨(hkept m hm).mpr hmem, hm, fun k hk hkover =>
          hdeepest k ((hkept k hkover).mp hk) hkover⟩

/-! ## What the lookup finds -/

/-- The point is at or above the path, as `to_string_lossy` shows it. -/
def Mount.OverShown (m : Mount) (lossy : Lossy) (path : List Bytes) : Prop :=
  m.names <+: path.map lossy.decode

instance (m : Mount) (lossy : Lossy) (path : List Bytes) : Decidable (m.OverShown lossy path) :=
  inferInstanceAs (Decidable (m.names <+: path.map lossy.decode))

/-- `deeper`, on mounts. -/
def better (lossy : Lossy) (path : List Bytes) (best : Option Mount) (m : Mount) : Option Mount :=
  if m.OverShown lossy path ∧ best.all fun b => b.names.length ≤ m.names.length then some m
  else best

theorem Mount.Over.shown (h : m.Over path) : m.OverShown lossy path := by
  have hmap := h.map lossy.decode
  have hread : (m.names.map utf8).map lossy.decode = m.names := by
    rw [List.map_map]
    exact List.map_id'' lossy.decode_utf8 m.names
  rwa [hread] at hmap

/-- What the loop keeps of a mount. -/
def Mount.found (m : Mount) : ℕ × Text × Text := (m.names.length + 1, m.id.val, m.kind.val)

theorem deeper_found (best : Option Mount) :
    deeper (shown lossy path) (best.map Mount.found) (m.id.val, pointText m.point, m.kind.val) =
      (better lossy path best m).map Mount.found := by
  have hover : components (pointText m.point) <+: shown lossy path ↔ m.OverShown lossy path := by
    rw [components_pointText, shown, List.cons_prefix_cons,
      List.prefix_map_iff_of_injective fun _ _ h => Component.name.inj h]
    exact and_iff_right rfl
  have hlength : (components (pointText m.point)).length = m.names.length + 1 := by
    rw [components_pointText, List.length_cons, List.length_map]
    rfl
  unfold deeper better
  dsimp only
  rw [hlength]
  by_cases hm : m.OverShown lossy path
  · rw [if_pos (hover.mpr hm)]
    cases best with
    | none => simp [hm, Mount.found]
    | some b =>
      by_cases hb : b.names.length ≤ m.names.length
      · simp [hm, hb, Mount.found]
      · simp [hm, hb, Mount.found]
  · rw [if_neg fun h => hm (hover.mp h), if_neg fun h => hm h.1]

theorem deepest_table (lossy : Lossy) (mounts : List Mount) (path : List Bytes) :
    deepest lossy (table mounts) path =
      (mounts.foldl (better lossy path) none).map fun m => (m.id.val, m.kind.val) := by
  have hfold : ∀ best : Option Mount,
      (mounts.map fun m => (m.id.val, pointText m.point, m.kind.val)).foldl
          (deeper (shown lossy path)) (best.map Mount.found) =
        (mounts.foldl (better lossy path) best).map Mount.found := by
    induction mounts with
    | nil => exact fun best => rfl
    | cons m mounts ih =>
      intro best
      rw [List.map_cons, List.foldl_cons, deeper_found, ih, List.foldl_cons]
  rw [deepest, rows_table]
  have hnone := hfold none
  rw [Option.map_none] at hnone
  rw [hnone, Option.map_map]
  rfl

/-- Of the mounts so far, the last of the deepest ones. -/
def IsBest (lossy : Lossy) (path : List Bytes) (mounts : List Mount) : Option Mount → Prop
  | none => ∀ k ∈ mounts, ¬ k.OverShown lossy path
  | some m => ∃ front back, mounts = front ++ m :: back ∧ m.OverShown lossy path ∧
      (∀ k ∈ front, k.OverShown lossy path → k.names.length ≤ m.names.length) ∧
      ∀ k ∈ back, k.OverShown lossy path → k.names.length < m.names.length

theorem IsBest.length_le (h : IsBest lossy path mounts (some m)) (hk : k ∈ mounts)
    (hover : k.OverShown lossy path) : k.names.length ≤ m.names.length := by
  obtain ⟨front, back, rfl, -, hfront, hback⟩ := h
  rcases List.mem_append.mp hk with hk | hk
  · exact hfront k hk hover
  · rcases List.mem_cons.mp hk with rfl | hk
    · exact le_rfl
    · exact (hback k hk hover).le

/-- A mount that is not deep enough changes nothing. -/
theorem IsBest.skip {best : Option Mount} {x : Mount} (h : IsBest lossy path mounts best)
    (hx : x.OverShown lossy path → ∃ b, best = some b ∧ x.names.length < b.names.length) :
    IsBest lossy path (mounts ++ [x]) best := by
  cases best with
  | none =>
    intro k hk hover
    rcases List.mem_append.mp hk with hk | hk
    · exact h k hk hover
    · rw [List.mem_singleton.mp hk] at hover
      obtain ⟨b, hb, -⟩ := hx hover
      cases hb
  | some m =>
    obtain ⟨front, back, rfl, hm, hfront, hback⟩ := h
    refine ⟨front, back ++ [x], by simp, hm, hfront, fun k hk hover => ?_⟩
    rcases List.mem_append.mp hk with hk | hk
    · exact hback k hk hover
    · rw [List.mem_singleton.mp hk] at hover ⊢
      obtain ⟨b, hb, hlength⟩ := hx hover
      cases hb
      exact hlength

theorem IsBest.better {best : Option Mount} (h : IsBest lossy path mounts best) (x : Mount) :
    IsBest lossy path (mounts ++ [x]) (better lossy path best x) := by
  unfold Ownership.better
  split_ifs with hx
  · obtain ⟨hover, hall⟩ := hx
    refine ⟨mounts, [], rfl, hover, fun k hk hkover => ?_, fun k hk => absurd hk List.not_mem_nil⟩
    cases best with
    | none => exact absurd hkover (h k hk)
    | some m => exact (h.length_le hk hkover).trans (of_decide_eq_true hall)
  · refine h.skip fun hover => ?_
    cases best with
    | none => exact absurd ⟨hover, rfl⟩ hx
    | some m =>
      refine ⟨m, rfl, Nat.not_le.mp fun hle => hx ⟨hover, decide_eq_true hle⟩⟩

/-- The mount that the loop ends with. -/
theorem foldl_better (lossy : Lossy) (mounts : List Mount) (path : List Bytes) :
    IsBest lossy path mounts (mounts.foldl (Ownership.better lossy path) none) := by
  induction mounts using List.reverseRecOn with
  | nil => exact fun k hk => absurd hk List.not_mem_nil
  | append_singleton mounts x ih =>
    rw [List.foldl_concat]
    exact ih.better x

/-! ## When it is the right one -/

/-- No mount at or above the path, as it is shown, is deeper than the last one at or above it. -/
def LastIsDeepest (lossy : Lossy) (mounts : List Mount) (path : List Bytes) : Prop :=
  ∀ k ∈ mounts, k.OverShown lossy path →
    ∃ m, lastOver mounts path = some m ∧ k.names.length ≤ m.names.length

/-- Then the loop ends with the last mount at or above the path. -/
theorem foldl_better_eq (h : LastIsDeepest lossy mounts path) :
    mounts.foldl (Ownership.better lossy path) none = lastOver mounts path := by
  have hbest := foldl_better lossy mounts path
  cases hfold : mounts.foldl (Ownership.better lossy path) none with
  | none =>
    rw [hfold] at hbest
    cases hlast : lastOver mounts path with
    | none => rfl
    | some r =>
      obtain ⟨hmem, hover⟩ := mem_of_lastOver hlast
      exact absurd hover.shown (hbest r hmem)
  | some m =>
    rw [hfold] at hbest
    have hdeepest : ∀ k ∈ mounts, k.OverShown lossy path → k.names.length ≤ m.names.length :=
      fun k => hbest.length_le
    obtain ⟨front, back, rfl, hm, -, hback⟩ := hbest
    obtain ⟨r, hlast, hdeep⟩ := h m (List.mem_append_right _ List.mem_cons_self) hm
    obtain ⟨hr, hover⟩ := mem_of_lastOver hlast
    -- two points above one path that are as deep are the same
    have hlength : m.names.length = r.names.length :=
      le_antisymm hdeep (hdeepest r hr hover.shown)
    have hnames : m.names = r.names :=
      (List.prefix_of_prefix_length_le hm hover.shown hdeep).eq_of_length hlength
    have hmover : m.Over path := by
      unfold Mount.Over
      rw [hnames]
      exact hover
    have hsplit : lastOver (front ++ m :: back) path =
        ((lastOver back path).or (some m)).or (lastOver front path) := by
      rw [lastOver_append, ← List.singleton_append, lastOver_append, lastOver_singleton,
        if_pos hmover]
    cases hafter : lastOver back path with
    | none =>
      rw [hsplit, hafter]
      rfl
    | some r' =>
      rw [hsplit, hafter] at hlast
      cases hlast
      obtain ⟨hmem, hover'⟩ := mem_of_lastOver hafter
      have := hback r hmem hover'.shown
      omega

/-- The lookup answers with the mount that the path leads to, if there is one. -/
def Finds (lossy : Lossy) (mounts : List Mount) (path : List Bytes) : Prop :=
  ∀ id kind, deepest lossy (table mounts) path = some (id, kind) ↔
    ∃ m, Reaches mounts path m ∧ m.id.val = id ∧ m.kind.val = kind

/-- A shared type is reported exactly if the mount that the path leads to has one. -/
def FindsShared (lossy : Lossy) (mounts : List Mount) (path : List Bytes) : Prop :=
  ∀ kind, sharedFilesystem lossy (table mounts) path = some kind ↔
    ∃ m, Reaches mounts path m ∧ m.kind.val = kind ∧ kind ∈ SHARED.map String.toList

theorem finds_of_lastIsDeepest (h : LastIsDeepest lossy mounts path) :
    Finds lossy mounts path := by
  intro id kind
  rw [deepest_table, foldl_better_eq h, Option.map_eq_some_iff]
  refine exists_congr fun m => ?_
  rw [reaches_iff lossy, Prod.mk.injEq]

theorem Finds.shared (h : Finds lossy mounts path) : FindsShared lossy mounts path := by
  intro kind
  rw [sharedFilesystem, Option.filter_eq_some_iff, Option.map_eq_some_iff, decide_eq_true_eq]
  constructor
  · rintro ⟨⟨⟨id, kind⟩, hdeepest, rfl⟩, hshared⟩
    obtain ⟨m, hm, -, hkind⟩ := (h id kind).mp hdeepest
    exact ⟨m, hm, hkind, hshared⟩
  · rintro ⟨m, hm, hkind, hshared⟩
    exact ⟨⟨(m.id.val, kind), (h _ _).mpr ⟨m, hm, rfl, hkind⟩, rfl⟩, hshared⟩

/-- **The lookup finds the mount that holds the path exactly if no mount above it is deeper than the
last one.** Mounts that are shown with the same ID cannot be told apart by the answer. -/
theorem deepest_reaches (lossy : Lossy) (mounts : List Mount) (path : List Bytes) :
    (LastIsDeepest lossy mounts path →
      Finds lossy mounts path ∧ FindsShared lossy mounts path) ∧
    ((mounts.map fun m => m.id.val).Nodup → Finds lossy mounts path →
      LastIsDeepest lossy mounts path) := by
  refine ⟨fun h => ⟨finds_of_lastIsDeepest h, (finds_of_lastIsDeepest h).shared⟩, ?_⟩
  intro hids hfinds k hk hover
  have hbest := foldl_better lossy mounts path
  cases hfold : mounts.foldl (Ownership.better lossy path) none with
  | none =>
    rw [hfold] at hbest
    exact absurd hover (hbest k hk)
  | some m =>
    rw [hfold] at hbest
    have hdeepest : deepest lossy (table mounts) path = some (m.id.val, m.kind.val) := by
      rw [deepest_table, hfold]
      rfl
    obtain ⟨r, hr, hid, -⟩ := (hfinds _ _).mp hdeepest
    rw [reaches_iff lossy] at hr
    have hm : m ∈ mounts := by
      obtain ⟨front, back, rfl, -⟩ := hbest
      exact List.mem_append_right _ List.mem_cons_self
    cases List.inj_on_of_nodup_map hids (mem_of_lastOver hr).1 hm hid
    exact ⟨m, hr, hbest.length_le hk hover⟩

end

/-- Bytes that encode no text are all shown alike. -/
def alikeLossy : Lossy where
  decode bytes := bytes.toByteArray.utf8Decode?.elim ['\uFFFD'] Array.toList
  decode_utf8 t := by
    have hencode : (utf8 t).toByteArray = t.utf8Encode := rfl
    rw [hencode, List.utf8Decode?_utf8Encode]
    rfl

def sampleMount (id kind : Field) (point : List Name) : Mount where
  id := id
  parent := ⟨['1'], by decide⟩
  device := ⟨['8', ':', '1'], by decide⟩
  root := ⟨['/'], by decide⟩
  point := point
  options := ⟨['r', 'w'], by decide⟩
  optional := []
  kind := kind
  source := ⟨['s'], by decide⟩
  superOptions := ⟨['r', 'w'], by decide⟩
  plain := List.forall_mem_singleton.mpr (by decide)

def ext4 : Field := ⟨['e', 'x', 't', '4'], by decide⟩

def nfs : Field := ⟨['n', 'f', 's'], by decide⟩

def localRoot : Mount := sampleMount ⟨['1'], by decide⟩ ext4 []

def nameA : Name := ⟨['a'], by decide⟩

def nameB : Name := ⟨['b'], by decide⟩

/-- A network mount on `/a`, then a local one on `/a/b` and a network mount beside it. -/
def nestedMounts : List Mount :=
  [localRoot, sampleMount ⟨['2'], by decide⟩ nfs [nameA],
    sampleMount ⟨['3'], by decide⟩ ext4 [nameA, nameB], sampleMount ⟨['4'], by decide⟩ nfs [nameB]]

/-- The last mount above the path is the deepest one, and it is found. -/
theorem deepest_reaches_nested :
    Finds alikeLossy nestedMounts [utf8 ['a'], utf8 ['b'], utf8 ['c']] ∧
      Reaches nestedMounts [utf8 ['a'], utf8 ['b'], utf8 ['c']]
        (sampleMount ⟨['3'], by decide⟩ ext4 [nameA, nameB]) ∧
      LastIsDeepest alikeLossy nestedMounts [utf8 ['a'], utf8 ['b'], utf8 ['c']] := by
  have hlast : LastIsDeepest alikeLossy nestedMounts [utf8 ['a'], utf8 ['b'], utf8 ['c']] := by
    intro k hk _
    refine ⟨sampleMount ⟨['3'], by decide⟩ ext4 [nameA, nameB], rfl, ?_⟩
    simp only [nestedMounts, List.mem_cons, List.not_mem_nil, or_false] at hk
    rcases hk with rfl | rfl | rfl | rfl <;> decide
  have hfinds := ((deepest_reaches _ _ _).1 hlast).1
  exact ⟨hfinds, (reaches_iff alikeLossy).mpr rfl, (deepest_reaches _ _ _).2 (by decide) hfinds⟩

/-- A local mount on `/a/b`, and then a network mount on `/a`. -/
def hidingMounts : List Mount :=
  [localRoot, sampleMount ⟨['2'], by decide⟩ ext4 [nameA, nameB],
    sampleMount ⟨['3'], by decide⟩ nfs [nameA]]

/-- The path leads to the network mount, but the local one that it hides is found. -/
theorem deepest_finds_hidden :
    Reaches hidingMounts [utf8 ['a'], utf8 ['b'], utf8 ['c']]
        (sampleMount ⟨['3'], by decide⟩ nfs [nameA]) ∧
      deepest alikeLossy (table hidingMounts) [utf8 ['a'], utf8 ['b'], utf8 ['c']] =
        some (['2'], ext4.val) ∧
      nfs.val ∈ SHARED.map String.toList ∧
      sharedFilesystem alikeLossy (table hidingMounts) [utf8 ['a'], utf8 ['b'], utf8 ['c']] =
        none := by
  have hdeepest : deepest alikeLossy (table hidingMounts) [utf8 ['a'], utf8 ['b'], utf8 ['c']] =
      some (['2'], ext4.val) := by
    rw [deepest_table]
    simp [hidingMounts, localRoot, sampleMount, better, Mount.OverShown, Mount.names, nameA, nameB,
      Lossy.decode_utf8]
  refine ⟨(reaches_iff alikeLossy).mpr rfl, hdeepest, ?_, ?_⟩
  · exact List.mem_map.mpr ⟨"nfs", List.mem_cons_self, String.toList_ofList⟩
  · rw [sharedFilesystem, hdeepest]
    simp [SHARED, ext4]

end RiAuth.Ownership
