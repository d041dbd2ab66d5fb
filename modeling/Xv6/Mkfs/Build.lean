import Xv6.Mkfs.Files

/-!
# What `mkfs` builds

`listed files` are the files that the image is to hold: the root directory with
its entries and one file for each file of the command line. As long as the
inodes stay within the inode blocks, `main` builds an image that holds them, or
it stops for one of the reasons in `CannotBuild`.
-/

namespace Xv6.Mkfs
open Fs Lib Function Exec

/-- The bytes of a file of the command line. -/
def HostFile.bytes (file : HostFile) : List UInt8 := (file.contents.getD []).flatMap Chunk.bytes

/-- The name under which a file is entered. -/
def HostFile.stored (file : HostFile) : List UInt8 := skipUnderscore file.name.bytes

namespace Files

/-- One more file in the root directory. -/
def put (A : Files) (file : HostFile) : Files :=
  ((A.add T_FILE).append ROOTINO (dirent A.count file.stored).bytes).append A.count file.bytes

/-- No files. -/
def blank : Files where
  count := 1
  type := fun _ => 0
  size := fun _ => 0
  contents := fun _ => []

/-- The root directory and the entries that it starts with. -/
def formatted : Files :=
  ((blank.add T_DIR).append ROOTINO (dirent ROOTINO dot).bytes).append ROOTINO
    (dirent ROOTINO dotdot).bytes

/-- What the image is to hold. -/
def listed (files : List HostFile) : Files := files.foldl put formatted

/-- What the image holds in the end: the size of the root directory is changed. -/
@[simps -fullyApplied]
def rounded (A : Files) : Files :=
  { A with
    size := update A.size ROOTINO ((A.size ROOTINO / BSIZE + 1) * BSIZE) }

variable {A : Files} {files : List HostFile}

lemma Exact.put (h : A.Exact) (hroot : ROOTINO < A.count) (file : HostFile) :
    (A.put file).Exact :=
  ((h.add T_FILE).append (Nat.lt_succ_of_lt hroot) _).append (Nat.lt_succ_self _) _

lemma listed_append_singleton (files : List HostFile) (file : HostFile) :
    listed (files ++ [file]) = (listed files).put file :=
  List.foldl_append

lemma exact_formatted : formatted.Exact := by
  have hblank : blank.Exact := ⟨fun _ => rfl, fun _ _ => rfl⟩
  exact ((hblank.add T_DIR).append (by decide) _).append (by decide) _

lemma count_listed (files : List HostFile) : (listed files).count = files.length + 2 := by
  induction files using List.reverseRecOn with
  | nil => rfl
  | append_singleton files file ih =>
    rw [listed_append_singleton, List.length_append, List.length_singleton]
    change (listed files).count + 1 = _
    omega

lemma root_lt_count (files : List HostFile) : ROOTINO < (listed files).count := by
  rw [count_listed]
  exact Nat.lt_add_left _ (by decide)

lemma exact_listed (files : List HostFile) : (listed files).Exact := by
  induction files using List.reverseRecOn with
  | nil => exact exact_formatted
  | append_singleton files file ih =>
    rw [listed_append_singleton]
    exact ih.put (root_lt_count files) file

/-- The entries of the root directory. -/
def entries (files : List HostFile) : List Dirent :=
  dirent ROOTINO dot :: dirent ROOTINO dotdot ::
    files.mapIdx fun k file => dirent (k + 2) file.stored

lemma contents_put_root (h : ROOTINO < A.count) (file : HostFile) :
    (A.put file).contents ROOTINO = A.contents ROOTINO ++ (dirent A.count file.stored).bytes := by
  have hne : ROOTINO ≠ A.count := Nat.ne_of_lt h
  simp [put, hne]

variable {i : ℕ}

lemma contents_put_of_lt (hroot : i ≠ ROOTINO) (hi : i < A.count) (file : HostFile) :
    (A.put file).contents i = A.contents i := by
  have hne : i ≠ A.count := Nat.ne_of_lt hi
  simp [put, hne, hroot]

lemma contents_put_count (h : A.Exact) (hroot : ROOTINO < A.count) (file : HostFile) :
    (A.put file).contents A.count = file.bytes := by
  have hne : A.count ≠ ROOTINO := Nat.ne_of_gt hroot
  simp [put, hne, h.unused A.count (Nat.le_refl _)]

lemma contents_listed_root (files : List HostFile) :
    (listed files).contents ROOTINO = (entries files).flatMap Dirent.bytes := by
  induction files using List.reverseRecOn with
  | nil => simp [listed, formatted, blank, entries]
  | append_singleton files file ih =>
    rw [listed_append_singleton, contents_put_root (root_lt_count files), ih, count_listed]
    simp [entries]

lemma length_contents_root (files : List HostFile) :
    ((listed files).contents ROOTINO).length = (files.length + 2) * Dirent.SIZE := by
  rw [contents_listed_root, List.length_flatMap]
  simp [entries, List.map_const', Nat.add_mul]
  omega

lemma contents_listed {k : ℕ} {file : HostFile} (h : files[k]? = some file) :
    (listed files).contents (k + 2) = file.bytes := by
  induction files using List.reverseRecOn with
  | nil => cases h
  | append_singleton files last ih =>
    rw [listed_append_singleton]
    have hroot := root_lt_count files
    obtain hk | hk := Nat.lt_or_ge k files.length
    · rw [List.getElem?_append_left hk] at h
      rw [contents_put_of_lt (by change k + 2 ≠ 1; omega) (by rw [count_listed]; omega)]
      exact ih h
    obtain ⟨hk', hfile⟩ := List.getElem?_eq_some_iff.mp h
    rw [List.length_append, List.length_singleton] at hk'
    obtain rfl : k = files.length := by omega
    rw [← count_listed, contents_put_count (exact_listed files) hroot]
    rw [show last = file by simpa using hfile]

lemma type_put_of_lt (hi : i ≠ A.count) (file : HostFile) :
    (A.put file).type i = A.type i := by
  simp [put, hi]

lemma type_listed_root (files : List HostFile) : (listed files).type ROOTINO = T_DIR := by
  induction files using List.reverseRecOn with
  | nil => rfl
  | append_singleton files last ih =>
    rw [listed_append_singleton, type_put_of_lt (Nat.ne_of_lt (root_lt_count files)), ih]

lemma type_listed (hi : ROOTINO < i) (hlt : i < (listed files).count) :
    (listed files).type i = T_FILE := by
  induction files using List.reverseRecOn with
  | nil =>
    change 1 < i at hi
    change i < 2 at hlt
    omega
  | append_singleton files last ih =>
    rw [listed_append_singleton] at hlt ⊢
    change i < (listed files).count + 1 at hlt
    obtain rfl | hne := eq_or_ne i (listed files).count
    · simp [put]
    rw [type_put_of_lt hne]
    exact ih (by omega)

lemma cost_le_put (h : A.Exact) (hroot : ROOTINO < A.count) (file : HostFile) :
    A.cost ≤ (A.put file).cost :=
  calc
    A.cost = (A.add T_FILE).cost := (cost_add h T_FILE).symm
    _ ≤ ((A.add T_FILE).append ROOTINO (dirent A.count file.stored).bytes).cost :=
        cost_le_append (Nat.lt_succ_of_lt hroot) _
    _ ≤ (A.put file).cost := cost_le_append (Nat.lt_succ_self _) _

/-- The blocks that a file of the command line takes. -/
def blocksFor (file : HostFile) : ℕ := spent (blocksOf file.bytes.length)

lemma cost_put (h : A.Exact) (hroot : ROOTINO < A.count) (file : HostFile) :
    (A.put file).cost + spent (blocksOf (A.contents ROOTINO).length) =
      A.cost + spent (blocksOf ((A.put file).contents ROOTINO).length) + blocksFor file := by
  have hadd := cost_add h T_FILE
  have hentry := cost_append (A := A.add T_FILE) (Nat.lt_succ_of_lt hroot)
    (dirent A.count file.stored).bytes
  have hbytes := cost_append (A := (A.add T_FILE).append ROOTINO (dirent A.count file.stored).bytes)
    (Nat.lt_succ_self A.count) file.bytes
  rw [append_contents, update_of_ne (Nat.ne_of_gt hroot), add_contents,
    h.unused A.count (Nat.le_refl _), List.nil_append] at hbytes
  have hnil : spent (blocksOf ([] : List UInt8).length) = 0 := rfl
  rw [contents_put_root hroot, put, blocksFor]
  rw [add_contents] at hentry
  omega

lemma cost_listed (files : List HostFile) : (listed files).cost =
      spent (blocksOf ((files.length + 2) * Dirent.SIZE)) + (files.map blocksFor).sum := by
  induction files using List.reverseRecOn with
  | nil => decide
  | append_singleton files file ih =>
    have hput := cost_put (exact_listed files) (root_lt_count files) file
    rw [← listed_append_singleton, length_contents_root, length_contents_root] at hput
    rw [List.map_append, List.sum_append, List.map_singleton, List.sum_singleton]
    omega

lemma cost_listed_le {done rest : List HostFile} :
    (listed done).cost ≤ (listed (done ++ rest)).cost := by
  induction rest using List.reverseRecOn with
  | nil => rw [List.append_nil]
  | append_singleton rest file ih =>
    rw [← List.append_assoc, listed_append_singleton]
    exact ih.trans (cost_le_put (exact_listed _) (root_lt_count _) file)

end Files

open Files

section Rules
variable {A : Files} {E : ℕ → Extent} {D : ℕ → Dinode} {s : State}
variable {err : Failure} {p : List UInt8} {S : Failure → State → Prop}

variable {j : ℕ}

lemma Failure.CannotAppend.mono (h : err.CannotAppend A j p) (hj : j < A.count)
    (q : List UInt8) : err.CannotAppend A j (p ++ q) := by
  rcases h with ⟨herr, hmax⟩ | ⟨herr, hfull⟩
  · refine .inl ⟨herr, ?_⟩
    rw [← List.append_assoc, List.length_append]
    omega
  have hle := cost_le_append (A := A.append j p) hj q
  rw [append_append] at hle
  exact .inr ⟨herr, by omega⟩

lemma Failure.CannotAppend.of_append {q : List UInt8}
    (h : err.CannotAppend (A.append j p) j q) : err.CannotAppend A j (p ++ q) := by
  unfold CannotAppend at h ⊢
  rwa [append_contents, update_self, List.append_assoc, append_append] at h

lemma wp_chunks (h : Holds A E D s) (hexact : A.Exact) (hj : 0 < j)
    (hlt : j < A.count) (chunks : List Chunk) : wp (Exec.each (fun c => iappend j c.bytes) chunks)
      (fun _ s' => ∃ E' D', Holds (A.append j (chunks.flatMap Chunk.bytes)) E' D' s')
      (fun err _ => err.CannotAppend A j (chunks.flatMap Chunk.bytes)) s := by
  induction chunks generalizing A E D s with
  | nil => exact ⟨E, D, by rwa [List.flatMap_nil, append_nil]⟩
  | cons c chunks ih =>
    rw [List.flatMap_cons]
    refine wp_bind.mpr (wp_mono (wp_iappend h hexact hj hlt c.bytes) ?_ ?_)
    · rintro _ s' ⟨E', D', h'⟩
      refine wp_mono (ih h' (hexact.append hlt _) hlt) ?_ ?_
      · intro _ s'' h''
        rwa [append_append] at h''
      · exact fun err _ hfail => hfail.of_append
    · exact fun err _ hfail => hfail.mono hlt _

/-- The reasons for which a file is not added. -/
inductive Failure.CannotPut (A : Files) (file : HostFile) : Failure → Prop
  | slash (h : Fs.slash ∈ file.name.bytes) : CannotPut A file .slash
  | openFile (h : file.contents = none) : CannotPut A file .openFile
  | entry (h : MAXFILE * BSIZE < ((A.put file).contents ROOTINO).length) : CannotPut A file .maxfile
  | large (h : MAXFILE * BSIZE < file.bytes.length) : CannotPut A file .maxfile
  | full (h : FSSIZE < nmeta + (A.put file).cost) : CannotPut A file .read

lemma wp_addFile (h : Holds A E D s) (hexact : A.Exact) (hroot : ROOTINO < A.count)
    (hroom : A.count < ROOM) (file : HostFile) :
    wp (addFile file) (fun _ s' => ∃ E' D', Holds (A.put file) E' D' s')
      (fun err _ => err.CannotPut A file) s := by
  unfold addFile
  rw [wp_bind, wp_stopIf]
  refine ⟨.slash, fun _ => ?_⟩
  rcases hchunks : file.contents with _ | chunks
  · exact .openFile hchunks
  have hbytes : file.bytes = chunks.flatMap Chunk.bytes := by
    rw [HostFile.bytes, hchunks, Option.getD_some]
  have hlt := Nat.lt_succ_of_lt hroot
  refine wp_seq (wp_ialloc h hexact hroom T_FILE) ?_
  rintro _ s₁ ⟨rfl, D₁, h₁⟩
  rw [wp_bind]
  refine wp_mono (wp_iappend h₁ (hexact.add _) (by decide) hlt _) ?_ ?_
  · rintro _ s₂ ⟨E₂, D₂, h₂⟩
    refine wp_mono (wp_chunks h₂ ((hexact.add _).append hlt _) h.root
      (Nat.lt_succ_self _) chunks) ?_ ?_
    · rintro _ s₃ ⟨E₃, D₃, h₃⟩
      refine ⟨E₃, D₃, ?_⟩
      rwa [put, hbytes]
    rintro err _ (⟨rfl, hmax⟩ | ⟨rfl, hfull⟩)
    · apply Failure.CannotPut.large
      rwa [append_contents, update_of_ne (Nat.ne_of_gt hroot), add_contents,
        hexact.unused _ (Nat.le_refl _), List.nil_append, ← hbytes] at hmax
    · apply Failure.CannotPut.full
      rwa [put, hbytes]
  rintro err _ (⟨rfl, hmax⟩ | ⟨rfl, hfull⟩)
  · apply Failure.CannotPut.entry
    rwa [contents_put_root hroot]
  · apply Failure.CannotPut.full
    exact Nat.lt_of_lt_of_le hfull (Nat.add_le_add_left (cost_le_append (Nat.lt_succ_self _) _) _)

/-- The image when every sector has been zeroed and the super block is there. -/
@[simps -fullyApplied]
def zeroed : State where
  image := update (fun _ => Block.zero) 1 (Block.zero.setWords 0 sb.words)
  sectors := FSSIZE
  freeinode := 1
  freeblock := nmeta
  inodeWrites := []

lemma wp_zeroes {n : ℕ} {Q : Unit → State → Prop} (s : State) (hs : s.image = fun _ => Block.zero)
    (hempty : s.sectors = 0) (hn : n ≤ FSSIZE) (hQ : Q () { s with sectors := n }) :
    wp (Exec.each (fun i => wsect (UInt32.ofNat i) Block.zero) (List.range n)) Q S s := by
  have hloop := wp_each (S := S) (s := s) (fun i => wsect (UInt32.ofNat i) Block.zero)
    (fun done t => t = { s with sectors := done.length }) (List.range n) ?_ ?_
  · refine wp_post hloop ?_
    rintro _ t rfl
    rwa [List.length_range]
  · rintro done x rest hrange t rfl
    have hx : x = done.length := by
      have hget : (List.range n)[done.length]? = some x := by simp [hrange]
      simpa using (List.getElem?_eq_some_iff.mp hget).2.symm
    have hlt : done.length < n := by
      have := congrArg List.length hrange
      rw [List.length_range, List.length_append, List.length_cons] at this
      omega
    rw [hx, wp_wsect, sector_ofNat (by omega), List.length_append]
    simp [State.write, hs]
  · rw [List.length_nil, ← hempty]

lemma holds_zeroed : Holds blank (fun _ => Extent.empty) (fun _ => newInode 0) zeroed := by
  have hused : ∀ x, x ∉ Extent.empty.used := fun x hx => nomatch hx
  refine ⟨?_, fun i hi hlt => absurd hlt (Nat.not_lt.mpr hi)⟩
  constructor
  case table =>
    refine ⟨rfl, fun _ => .empty (addr_newInode 0), fun _ x hx => absurd hx (hused x),
      fun _ => List.nodup_nil, fun _ _ _ x hx => absurd hx (hused x), ?_, Nat.le_refl _⟩
    intro x hx
    change 59 ≤ x at hx
    have hne : x ≠ 1 := by omega
    rw [zeroed_image, update_of_ne hne]
  case tight =>
    exact fun _ => ⟨by simp [Extent.Shaped, Extent.empty],
      by simp [Extent.empty, blank, blocksOf, BSIZE], Nat.zero_le _⟩
  case type | nlink | size => exact fun i hi hlt => absurd hlt (Nat.not_lt.mpr hi)
  case count => rfl
  case root => decide
  case room => decide
  case full => decide
  case cost => rfl
  case super => rw [zeroed_image, update_self]
  case writes => exact List.forall_mem_nil _

lemma not_cannotAppend_root (hcost : A.cost + 2 ≤ FSSIZE - nmeta) (hroot : ROOTINO < A.count)
    (hlen : (A.contents ROOTINO ++ p).length ≤ 2 * Dirent.SIZE) :
    ¬ err.CannotAppend A ROOTINO p := by
  change _ ≤ 941 at hcost
  change _ ≤ 32 at hlen
  have hblocks : spent (blocksOf (A.contents ROOTINO ++ p).length) ≤ 1 :=
    (spent_mono (blocksOf_mono hlen)).trans (by decide)
  have hgrow := cost_append hroot p
  rintro (⟨-, hmax⟩ | ⟨-, hfull⟩)
  · change 71680 < _ at hmax
    omega
  · change 1000 < 59 + _ at hfull
    omega

lemma wp_format : wp format (fun _ s => ∃ E D, Holds formatted E D s) S start := by
  have hblank : blank.Exact := ⟨fun _ => rfl, fun _ _ => rfl⟩
  have hexact := hblank.add T_DIR
  have hcost : (blank.add T_DIR).cost + 2 ≤ FSSIZE - nmeta := by decide
  have hcost₂ : ((blank.add T_DIR).append ROOTINO (dirent ROOTINO dot).bytes).cost + 2 ≤
      FSSIZE - nmeta := by decide
  unfold format
  rw [wp_bind, wp_modify, wp_bind]
  -- The number of sectors is kept abstract, so that the loop is not unrolled.
  generalize hn : FSSIZE = n
  refine wp_zeroes _ rfl rfl (Nat.le_of_eq hn.symm) ?_
  subst hn
  rw [wp_bind, wp_wsect]
  change wp _ _ _ zeroed
  refine wp_seq (wp_ialloc holds_zeroed hblank (by decide) T_DIR) ?_
  rintro _ s₁ ⟨rfl, D₁, h₁⟩
  rw [wp_bind, wp_stopIf]
  refine ⟨fun hne => absurd rfl hne, fun _ => ?_⟩
  rw [wp_bind]
  refine wp_mono (wp_iappend h₁ hexact (by decide) (by decide) _) ?_ ?_
  · rintro _ s₂ ⟨E₂, D₂, h₂⟩
    refine wp_mono (wp_iappend h₂ (hexact.append (by decide) _) (by decide) (by decide) _)
      (fun _ _ h => h) ?_
    intro err _ hfail
    exact absurd hfail (not_cannotAppend_root hcost₂ (by decide) (by decide))
  · intro err _ hfail
    exact absurd hfail (not_cannotAppend_root hcost (by decide) (by decide))

lemma wp_finish (h : Holds A E D s) (hexact : A.Exact) (hroot : ROOTINO < A.count) :
    wp finish (fun _ s' => (∃ E' D', Holds A.rounded E' D' s') ∧
      s'.image sb.bmapstart = bitmap s'.freeblock) S s := by
  have hroom := h.lt_room hroot
  have hsize : ((D ROOTINO).size / UInt32.ofNat BSIZE + 1) * UInt32.ofNat BSIZE =
      UInt32.ofNat ((A.size ROOTINO / BSIZE + 1) * BSIZE) := by
    have hsmall := (h.tight ROOTINO).small
    rw [← hexact.size] at hsmall
    change _ ≤ 71680 at hsmall
    rw [h.size ROOTINO (by decide) hroot]
    apply UInt32.toNat_inj.mp
    simp only [UInt32.toNat_mul, UInt32.toNat_add, UInt32.toNat_div, UInt32.toNat_ofNat', BSIZE,
      UInt32.toNat_one, Nat.reducePow, Nat.reduceMod]
    omega
  rw [finish, wp_bind]
  apply wp_rinode hroom h.table.sectors
  rw [h.disk ROOTINO (by decide) hroot, hsize, wp_bind]
  apply wp_winode hroom h.table.sectors
  generalize hd : ({ D ROOTINO with
    size := UInt32.ofNat ((A.size ROOTINO / BSIZE + 1) * BSIZE) } : Dinode) = d
  have hlaid : Laid A.rounded E (update D ROOTINO d) s := by
    refine { h.toLaid with table := ?_, type := ?_, nlink := ?_, size := ?_ }
    · apply h.table.change_head
      intro i
      obtain rfl | hne := eq_or_ne i ROOTINO
      · simp [← hd]
      · simp [hne]
    · intro i hi hlt
      obtain rfl | hne := eq_or_ne i ROOTINO
      · simpa [← hd] using h.type _ hi hlt
      · simpa [hne] using h.type i hi hlt
    · intro i hi hlt
      obtain rfl | hne := eq_or_ne i ROOTINO
      · simpa [← hd] using h.nlink _ hi hlt
      · simpa [hne] using h.nlink i hi hlt
    intro i hi hlt
    obtain rfl | hne := eq_or_ne i ROOTINO
    · simp [← hd]
    · simpa [hne] using h.size i hi hlt
  have hholds := hlaid.putInode hroot fun i hi hlt hne => by
    rw [update_of_ne hne]
    exact h.disk i hi hlt
  rw [update_self] at hholds
  rw [wp_bind, wp_get, balloc, wp_bind, wp_stopIf]
  refine ⟨fun hused => ?_, fun _ => ?_⟩
  · have hfull := hholds.full
    change _ ≤ 1000 at hfull
    change 4096 ≤ _ at hused
    omega
  rw [wp_wsect, sector_ofNat (by decide)]
  refine ⟨⟨E, _, hholds.writeBitmap _⟩, ?_⟩
  rw [State.write_image, update_self]
  rfl

/-- The reasons for which an image is not built. -/
def Failure.CannotBuild (err : Failure) (files : List HostFile) : Prop :=
  ∃ done file rest, files = done ++ file :: rest ∧ err.CannotPut (listed done) file

variable {files : List HostFile}

lemma wp_addFiles (h : Holds formatted E D s) (hroom : files.length + 2 ≤ ROOM) :
    wp (Exec.each addFile files) (fun _ s' => ∃ E' D', Holds (listed files) E' D' s')
      (fun err _ => err.CannotBuild files) s := by
  apply wp_each addFile (fun done s' => ∃ E' D', Holds (listed done) E' D' s')
  · rintro done file rest hfiles s' ⟨E', D', h'⟩
    have hlt : (listed done).count < ROOM := by
      rw [count_listed]
      rw [hfiles, List.length_append, List.length_cons] at hroom
      omega
    refine wp_mono (wp_addFile h' (exact_listed done) (root_lt_count done) hlt file) ?_ ?_
    · intro _ s'' h''
      rwa [listed_append_singleton]
    · exact fun err _ hfail => ⟨done, file, rest, hfiles, hfail⟩
  · exact ⟨E, D, h⟩

/-- The image holds the files with the size of the root directory changed, and its bitmap. -/
structure Finished (files : List HostFile) (s : State) : Prop where
  holds : ∃ E D, Holds (listed files).rounded E D s
  bitmap : s.image sb.bmapstart = bitmap s.freeblock

lemma wp_main (hroom : files.length + 2 ≤ ROOM) :
    wp (main files) (fun _ s => Finished files s) (fun err _ => err.CannotBuild files) start := by
  rw [main]
  refine wp_seq wp_format ?_
  rintro _ s₁ ⟨E₁, D₁, h₁⟩
  refine wp_seq (wp_addFiles h₁ hroom) ?_
  rintro _ s₂ ⟨E₂, D₂, h₂⟩
  refine wp_post (wp_finish h₂ (exact_listed files) (root_lt_count files)) ?_
  exact fun _ _ h => ⟨h.1, h.2⟩

/-- The files of the command line can be read, and there is room for them. -/
structure Fits (files : List HostFile) : Prop where
  slash : ∀ file ∈ files, slash ∉ file.name.bytes
  opened : ∀ file ∈ files, file.contents ≠ none
  size : ∀ file ∈ files, file.bytes.length ≤ MAXFILE * BSIZE
  blocks : nmeta + (spent (blocksOf ((files.length + 2) * Dirent.SIZE)) +
    (files.map blocksFor).sum) ≤ FSSIZE

lemma Fits.not_cannotBuild (h : Fits files)
    (hroom : files.length + 2 ≤ ROOM) (err : Failure) : ¬ err.CannotBuild files := by
  rintro ⟨done, file, rest, hfiles, hfail⟩
  have hmem : file ∈ files := by simp [hfiles]
  cases hfail with
  | slash hslash => exact h.slash file hmem hslash
  | openFile hnone => exact h.opened file hmem hnone
  | entry hlarge =>
    rw [← listed_append_singleton, length_contents_root, List.length_append,
      List.length_singleton] at hlarge
    rw [hfiles, List.length_append, List.length_cons] at hroom
    change 71680 < (_ + 2) * 16 at hlarge
    change _ ≤ 208 at hroom
    omega
  | large hlarge => exact absurd (h.size file hmem) (Nat.not_le.mpr hlarge)
  | full hfull =>
    have hle : (listed (done ++ [file])).cost ≤ (listed (done ++ [file] ++ rest)).cost :=
      cost_listed_le
    rw [List.append_assoc, List.singleton_append, ← hfiles, cost_listed files,
      listed_append_singleton] at hle
    have hblocks := h.blocks
    omega

lemma Fits.main_finishes (h : Fits files)
    (hroom : files.length + 2 ≤ ROOM) : ∃ s, main files start = .ok () s ∧ Finished files s := by
  have hwp := wp_mono (wp_main hroom) (fun _ _ h => h) fun err _ => h.not_cannotBuild hroom err
  obtain ⟨_, s, hmain, hfinished⟩ := wp_exists hwp
  exact ⟨s, hmain, hfinished⟩

end Rules

/-! ### Too many files -/

section Counters

/-- What every part of `mkfs` does to the counters, whatever the image holds. -/
structure Later (s s' : State) : Prop where
  freeinode : s'.freeinode = s.freeinode
  freeblock : s.freeblock ≤ s'.freeblock

variable {s s' : State}

lemma Later.refl (s : State) : Later s s := ⟨rfl, Nat.le_refl _⟩

lemma Later.trans {s'' : State} (h : Later s s') (h' : Later s' s'') : Later s s'' :=
  ⟨h'.freeinode.trans h.freeinode, h.freeblock.trans h'.freeblock⟩

/-- A part of `mkfs` keeps the counters if it stops or leaves them in order. -/
def Keeps {α : Type} (x : Exec Failure State α) : Prop :=
  ∀ s, wp x (fun _ s' => Later s s') (fun _ _ => True) s

lemma Keeps.bind {α β : Type} {x : Exec Failure State α} {f : α → Exec Failure State β}
    (h : Keeps x) (hf : ∀ a, Keeps (f a)) : Keeps (x >>= f) := by
  intro s
  refine wp_seq (h s) fun a s₁ h₁ => ?_
  exact wp_post (hf a s₁) fun _ _ h₂ => h₁.trans h₂

lemma Keeps.pure {α : Type} (a : α) : Keeps (pure a : Exec Failure State α) := Later.refl

lemma Keeps.stopIf (p : Prop) [Decidable p] (e : Failure) : Keeps (stopIf p e) := by
  intro s
  rw [wp_stopIf]
  exact ⟨fun _ => trivial, fun _ => .refl s⟩

lemma Keeps.each {β : Type} {f : β → Exec Failure State Unit} (h : ∀ x, Keeps (f x))
    (xs : List β) : Keeps (Exec.each f xs) := by
  induction xs with
  | nil => exact .pure ()
  | cons x xs ih => exact (h x).bind fun _ => ih

lemma keeps_rsect (sec : UInt32) : Keeps (rsect sec) := fun s =>
  wp_rsect.mpr ⟨fun _ => trivial, fun _ => .refl s⟩

lemma keeps_wsect (sec : UInt32) (b : Block) : Keeps (wsect sec b) := fun _ =>
  ⟨rfl, Nat.le_refl _⟩

lemma keeps_rinode (i : ℕ) : Keeps (rinode i) := (keeps_rsect _).bind fun _ => .pure _

lemma keeps_winode (i : ℕ) (d : Dinode) : Keeps (winode i d) :=
  (keeps_rsect _).bind fun _ => (keeps_wsect _ _).bind fun _ _ => ⟨rfl, Nat.le_refl _⟩

lemma keeps_nextBlock : Keeps nextBlock := fun _ => ⟨rfl, Nat.le_succ _⟩

lemma keeps_mapAddr (d : Dinode) (i : ℕ) : Keeps (mapAddr d i) := by
  unfold mapAddr
  split
  · exact keeps_nextBlock.bind .pure
  · exact .pure _

lemma keeps_mapIndirect (d : Dinode) (fbn : ℕ) : Keeps (mapIndirect d fbn) := by
  refine (keeps_rsect _).bind fun indirect => ?_
  split
  · exact keeps_nextBlock.bind fun _ => (keeps_wsect _ _).bind .pure
  · exact .pure _

lemma keeps_mapBlock (d : Dinode) (fbn : ℕ) : Keeps (mapBlock d fbn) := by
  unfold mapBlock
  split
  · exact (keeps_mapAddr _ _).bind .pure
  · exact (keeps_mapAddr _ _).bind fun d => (keeps_mapIndirect d fbn).bind .pure

lemma keeps_appendLoop (d : Dinode) (off : ℕ) (p : List UInt8) : Keeps (appendLoop d off p) := by
  induction d, off, p using appendLoop.induct with
  | case1 d off =>
    rw [appendLoop, if_pos rfl]
    exact .pure _
  | case2 d off p hp fbn ih =>
    rw [appendLoop, if_neg hp]
    refine (Keeps.stopIf _ _).bind fun _ => (keeps_mapBlock _ _).bind fun r => ?_
    exact (keeps_rsect _).bind fun _ => (keeps_wsect _ _).bind fun _ => ih r.1

lemma keeps_iappend (i : ℕ) (p : List UInt8) : Keeps (iappend i p) :=
  (keeps_rinode i).bind fun _ => (keeps_appendLoop _ _ _).bind fun _ => keeps_winode _ _

lemma wp_ialloc_counters (type : UInt16) :
    wp (ialloc type) (fun _ s' => s'.freeinode = s.freeinode + 1 ∧ s.freeblock ≤ s'.freeblock)
      (fun _ _ => True) s := by
  rw [ialloc, wp_bind, wp_get, wp_bind, wp_modify]
  refine wp_seq (keeps_winode _ _ _) ?_
  exact fun _ s' h => ⟨h.freeinode, h.freeblock⟩

lemma wp_addFile_counters (file : HostFile) :
    wp (addFile file) (fun _ s' => s'.freeinode = s.freeinode + 1 ∧ s.freeblock ≤ s'.freeblock)
      (fun _ _ => True) s := by
  unfold addFile
  rw [wp_bind, wp_stopIf]
  refine ⟨fun _ => trivial, fun _ => ?_⟩
  rcases file.contents with _ | chunks
  · trivial
  refine wp_seq (wp_ialloc_counters T_FILE) ?_
  rintro inum s₁ ⟨hinode, hblock⟩
  have hkeeps : Keeps (iappend ROOTINO (dirent inum (skipUnderscore file.name.bytes)).bytes >>=
      fun _ => Exec.each (fun c => iappend inum c.bytes) chunks) :=
    (keeps_iappend _ _).bind fun _ => .each (fun _ => keeps_iappend _ _) _
  refine wp_post (hkeeps s₁) ?_
  exact fun _ s₂ h => ⟨h.freeinode.trans hinode, hblock.trans h.freeblock⟩

lemma wp_addFiles_counters (files : List HostFile) : wp (Exec.each addFile files)
      (fun _ s' => s'.freeinode = s.freeinode + files.length ∧ s.freeblock ≤ s'.freeblock)
      (fun _ _ => True) s := by
  induction files generalizing s with
  | nil => exact ⟨rfl, Nat.le_refl _⟩
  | cons file files ih =>
    refine wp_seq (wp_addFile_counters file) ?_
    rintro _ s₁ ⟨hinode, hblock⟩
    refine wp_post ih ?_
    rintro _ s₂ ⟨hinode₂, hblock₂⟩
    refine ⟨?_, hblock.trans hblock₂⟩
    rw [hinode₂, hinode, List.length_cons]
    omega

lemma wp_finish_counters :
    wp finish (fun _ s' => Later s s' ∧ s'.image sb.bmapstart = bitmap s'.freeblock ∧
      s'.freeblock ≤ BPB) (fun _ _ => True) s := by
  rw [finish]
  refine wp_seq (keeps_rinode _ s) fun _ s₁ h₁ => ?_
  refine wp_seq (keeps_winode _ _ s₁) fun _ s₂ h₂ => ?_
  rw [wp_bind, wp_get, balloc, wp_bind, wp_stopIf]
  refine ⟨fun _ => trivial, fun hused => ?_⟩
  rw [wp_wsect, sector_ofNat (by decide)]
  refine ⟨(h₁.trans h₂).trans ⟨rfl, Nat.le_refl _⟩, ?_, Nat.le_of_not_le hused⟩
  rw [State.write_image, update_self]
  rfl

/-- However many files there are, each has taken an inode number when `mkfs` is done, the bitmap
is that of the blocks in use, and no fewer blocks are in use than the first files take. -/
lemma wp_main_counters (files : List HostFile) (k : ℕ) (hroom : k + 2 ≤ ROOM) :
    wp (main files) (fun _ s => s.freeinode = files.length + 2 ∧
      s.image sb.bmapstart = bitmap s.freeblock ∧ s.freeblock ≤ BPB ∧
      nmeta + (listed (files.take k)).cost ≤ s.freeblock) (fun _ _ => True) start := by
  have htake : (files.take k).length + 2 ≤ ROOM := by
    have := List.length_take_le k files
    omega
  rw [main]
  refine wp_seq wp_format ?_
  rintro _ s₁ ⟨E₁, D₁, h₁⟩
  rw [wp_bind, ← List.take_append_drop k files, wp_each_append]
  refine wp_mono (wp_addFiles h₁ htake) ?_ (fun _ _ _ => trivial)
  rintro _ s₂ ⟨E₂, D₂, h₂⟩
  refine wp_post (wp_addFiles_counters _) ?_
  rintro _ s₃ ⟨hinode, hblock⟩
  refine wp_post wp_finish_counters ?_
  rintro _ s₄ ⟨hlater, hbitmap, hused⟩
  rw [List.take_append_drop]
  refine ⟨?_, hbitmap, hused, ?_⟩
  · rw [hlater.freeinode, hinode, h₂.count, count_listed, List.length_take, List.length_drop]
    omega
  · rw [← h₂.cost]
    exact hblock.trans hlater.freeblock

end Counters
end Xv6.Mkfs
