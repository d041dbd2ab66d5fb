import Xv6.Mkfs.Coverage
import Xv6.Mkfs.Names

/-!
# The kernel finds the files of the command line

On the image that `mkfs` makes, `namei` finds each file under its name, cut to
`DIRSIZ` bytes and without a leading underscore, and `readi` of the whole inode
returns the bytes of the file.
-/

namespace Xv6.Mkfs
open Fs Lib List

/-- The names under which the files are entered can be told apart. -/
structure Named (files : List HostFile) : Prop where
  ne_nil : ∀ file ∈ files, file.stored ≠ []
  ne_dot : ∀ file ∈ files, file.stored.take DIRSIZ ≠ dot
  ne_dotdot : ∀ file ∈ files, file.stored.take DIRSIZ ≠ dotdot
  distinct : (files.map fun file => file.stored.take DIRSIZ).Nodup

lemma HostFile.stored_noNul (file : HostFile) : 0 ∉ file.stored := by
  unfold HostFile.stored skipUnderscore
  split
  · exact fun h => file.name.noNul (mem_of_mem_tail h)
  · exact file.name.noNul

lemma namecmp_elemBuffer {elem stored : List UInt8} (helem : 0 ∉ elem) (hstored : 0 ∉ stored)
    (name : List UInt8) : namecmp (elemBuffer elem name) (List.ofFn (strncpy stored)) = 0 ↔
      elem.take DIRSIZ = stored.take DIRSIZ := by
  rw [namecmp, strncmp_eq_zero, cstr_elemBuffer helem, cstr_strncpy hstored]

lemma drop_take_flatMap_bytes {l : List Dirent} {j : ℕ} {de : Dirent} (h : l[j]? = some de) :
    ((l.flatMap Dirent.bytes).drop (j * Dirent.SIZE)).take Dirent.SIZE = de.bytes := by
  induction l generalizing j with
  | nil => cases h
  | cons a l ih =>
    rw [flatMap_cons]
    rcases j with _ | j
    · obtain rfl : a = de := by simpa using h
      rw [Nat.zero_mul, drop_zero, take_append_of_le_length (by simp), take_of_length_le (by simp)]
    have hlen := a.length_bytes
    rw [Nat.succ_mul, Nat.add_comm, ← hlen, drop_length_add_append, hlen]
    exact ih h

section Image
variable {files : List HostFile} {E : ℕ → Extent} {D : ℕ → Dinode} {s : State}
variable {i j k : ℕ} {file : HostFile} {elem : List UInt8}

lemma Holds.ilock {A : Files} (h : Holds A E D s) (hi : 0 < i) (hlt : i < A.count)
    (htype : A.type i ≠ 0) : Mkfs.ilock s.image i = .ok (D i) := by
  have hblock : IBLOCK i sb < FSSIZE := Nat.lt_trans (IBLOCK_range (h.lt_room hlt)).2 (by decide)
  have hsb : readsb s.image = .ok sb := by
    rw [readsb, bread_of_lt (by decide), ok_bind, h.super, ofBlock_super]
    rfl
  have hdisk : (s.image (IBLOCK i sb)).dinode (i % IPB) = D i := h.disk i hi hlt
  rw [Mkfs.ilock, hsb, ok_bind, bread_of_lt hblock, ok_bind]
  dsimp only
  rw [hdisk, if_neg (by rwa [h.type i hi hlt])]
  rfl

lemma lookupFrom_entries {image : ℕ → Block} {dp : Dinode} (name : List UInt8)
    {entries : List Dirent} (hread : ∀ j de, entries[j]? = some de →
      j * Dirent.SIZE < dp.size.toNat ∧ readi image dp (UInt32.ofNat (j * Dirent.SIZE))
        (UInt32.ofNat Dirent.SIZE) = .ok (some de.bytes)) {t : ℕ} {target : Dirent}
    (ht : entries[t]? = some target) (hinum : target.inum ≠ 0)
    (hname : namecmp name (List.ofFn target.name) = 0)
    (hbefore : ∀ j de, j < t → entries[j]? = some de → namecmp name (List.ofFn de.name) ≠ 0)
    (j : ℕ) (hj : j ≤ t) :
    lookupFrom image dp name (j * Dirent.SIZE) = .ok (some target.inum.toNat) := by
  induction hk : t - j generalizing j with
  | zero =>
    obtain rfl : j = t := by omega
    obtain ⟨hlt, hde⟩ := hread j target ht
    rw [lookupFrom, if_pos hlt, hde, ok_bind]
    simp only [Option.getD_some, Dirent.length_bytes, ne_eq, not_true_eq_false, if_false,
      Dirent.ofBytes_bytes, hinum, hname, if_true]
    rfl
  | succ k ih =>
    have hlen := (List.getElem?_eq_some_iff.mp ht).1
    have hde := getElem?_eq_getElem (show j < entries.length by omega)
    generalize entries[j] = de at hde
    obtain ⟨hlt, hbytes⟩ := hread j de hde
    have hnext := ih (j + 1) (by omega) (by omega)
    rw [Nat.succ_mul] at hnext
    have hne := hbefore j de (by omega) hde
    rw [lookupFrom, if_pos hlt, hbytes, ok_bind]
    simp only [Option.getD_some, Dirent.length_bytes, ne_eq, not_true_eq_false, if_false,
      Dirent.ofBytes_bytes, hne, hnext, ite_self]

section
variable (h : Holds (Files.listed files).rounded E D s)
include h

/-- Every file covers the bytes that it is to hold. -/
lemma Holds.length_le_size (hi : 0 < i)
    (hlt : i < files.length + 2) : ((Files.listed files).contents i).length ≤ (D i).size.toNat := by
  rw [h.toNat_size hi hlt, ← (Files.exact_listed files).size, Files.rounded_size]
  obtain rfl | hne := eq_or_ne i ROOTINO
  · rw [Function.update_self]
    change _ ≤ (_ / 512 + 1) * 512
    omega
  · rw [Function.update_of_ne hne]

lemma Holds.rootInode : (D ROOTINO).type = T_DIR ∧ (D ROOTINO).nlink = 1 ∧
      Mkfs.ilock s.image ROOTINO = .ok (D ROOTINO) := by
  have hlt := Files.root_lt_count files
  have htype : (Files.listed files).rounded.type ROOTINO = T_DIR := Files.type_listed_root files
  exact ⟨(h.type _ (by decide) hlt).trans htype, h.nlink _ (by decide) hlt,
    h.ilock (by decide) hlt (by rw [htype]; decide)⟩

lemma Holds.readi_entry {de : Dirent} (hde : (Files.entries files)[j]? = some de) :
    j * Dirent.SIZE < (D ROOTINO).size.toNat ∧
      readi s.image (D ROOTINO) (UInt32.ofNat (j * Dirent.SIZE)) (UInt32.ofNat Dirent.SIZE) =
        .ok (some de.bytes) := by
  have hroot : ROOTINO < files.length + 2 := Nat.lt_add_left _ (by decide)
  have hsize := h.length_le_size (by decide) hroot
  have htight := h.tight ROOTINO
  have hlen : ((Files.listed files).rounded.contents ROOTINO).length = (files.length + 2) * 16 :=
    Files.length_contents_root files
  have hsmall := htight.small
  have hj : j < files.length + 2 := by
    have hlt := (List.getElem?_eq_some_iff.mp hde).1
    simp only [Files.entries, length_cons, length_mapIdx] at hlt
    omega
  rw [hlen] at hsmall
  change _ ≤ 71680 at hsmall
  have hoff : (UInt32.ofNat (j * Dirent.SIZE)).toNat = j * Dirent.SIZE := by
    rw [UInt32.toNat_ofNat']
    change j * 16 % _ = j * 16
    omega
  have hn : (UInt32.ofNat Dirent.SIZE).toNat = Dirent.SIZE := rfl
  have hle : j * Dirent.SIZE + Dirent.SIZE ≤
      ((Files.listed files).rounded.contents ROOTINO).length := by
    rw [hlen]
    change j * 16 + 16 ≤ _
    omega
  constructor
  · have hpos : 0 < Dirent.SIZE := by decide
    change ((Files.listed files).rounded.contents ROOTINO).length ≤ _ at hsize
    omega
  rw [(h.table.held ROOTINO).readi (h.placed ROOTINO) htight.shaped htight.length_le
    (by rw [h.rootInode.1]; decide) htight.le_length hsize (by rw [hoff, hn]; exact hle), hoff,
    hn]
  rw [Files.rounded_contents, Files.contents_listed_root, drop_take_flatMap_bytes hde]

end

/-- A name that is entered for a file is not that of an entry in front. -/
lemma Named.ne_before (h : Named files) (hfile : files[k]? = some file) {de : Dirent}
    (hj : j < k + 2) (hde : (Files.entries files)[j]? = some de) :
    ∃ stored, 0 ∉ stored ∧ de.name = strncpy stored ∧
      file.stored.take DIRSIZ ≠ stored.take DIRSIZ := by
  have hmem := mem_of_getElem? hfile
  match j with
  | 0 =>
    obtain rfl : dirent ROOTINO dot = de := Option.some.inj hde
    exact ⟨dot, by decide, rfl, h.ne_dot file hmem⟩
  | 1 =>
    obtain rfl : dirent ROOTINO dotdot = de := Option.some.inj hde
    exact ⟨dotdot, by decide, rfl, h.ne_dotdot file hmem⟩
  | j + 2 =>
    obtain ⟨other, hother, rfl⟩ : ∃ other, files[j]? = some other ∧
        dirent (j + 2) other.stored = de := by
      simpa [Files.entries, getElem?_mapIdx] using hde
    refine ⟨other.stored, other.stored_noNul, rfl, fun heq => ?_⟩
    have hlen := (List.getElem?_eq_some_iff.mp hfile).1
    have hsame : k = j := by
      apply (getElem?_inj (by rwa [length_map]) h.distinct).mp
      rw [getElem?_map, getElem?_map, hfile, hother, Option.map_some, Option.map_some, heq]
    omega

section
variable (h : Holds (Files.listed files).rounded E D s)
include h

lemma Holds.dirlookup (hnamed : Named files) (hfile : files[k]? = some file) (hnul : 0 ∉ elem)
    (helem : elem.take DIRSIZ = file.stored.take DIRSIZ) (name : List UInt8) :
    Mkfs.dirlookup s.image (D ROOTINO) (elemBuffer elem name) = .ok (some (k + 2)) := by
  have hk := (List.getElem?_eq_some_iff.mp hfile).1
  have hroom := h.room
  rw [Files.rounded_count, Files.count_listed] at hroom
  change _ ≤ 208 at hroom
  have hentry : (Files.entries files)[k + 2]? = some (dirent (k + 2) file.stored) := by
    simp [Files.entries, hfile]
  have hinum : (dirent (k + 2) file.stored).inum.toNat = k + 2 := by
    change (UInt16.ofNat (k + 2)).toNat = k + 2
    rw [UInt16.toNat_ofNat']
    omega
  have hfrom := lookupFrom_entries (elemBuffer elem name)
    (fun j de hde => h.readi_entry hde) hentry ?_ ?_ ?_ 0 (Nat.zero_le _)
  · rw [hinum, Nat.zero_mul] at hfrom
    rw [Mkfs.dirlookup, if_neg (by rw [h.rootInode.1]; exact fun hdir => hdir rfl), hfrom]
  · intro hzero
    rw [hzero] at hinum
    exact absurd hinum (Nat.ne_of_lt (Nat.succ_pos _))
  · exact (namecmp_elemBuffer hnul file.stored_noNul name).mpr helem
  intro j de hj hde
  obtain ⟨stored, hstored, hname, hne⟩ := hnamed.ne_before hfile hj hde
  rwa [hname, ne_eq, namecmp_elemBuffer hnul hstored, helem]

lemma Holds.namei (hnamed : Named files)
    (hfile : files[k]? = some file) (hslash : slash ∉ elem) (hnul : 0 ∉ elem)
    (helem : elem.take DIRSIZ = file.stored.take DIRSIZ) (slashes : ℕ) (name : List UInt8) :
    Mkfs.namei s.image ROOTINO (List.replicate slashes slash ++ elem) name =
      .ok (some (k + 2)) := by
  have hne : elem ≠ [] := by
    rintro rfl
    rw [take_nil] at helem
    exact hnamed.ne_nil file (mem_of_getElem? hfile) (by simpa [DIRSIZ] using helem.symm)
  obtain ⟨htype, hnlink, hilock⟩ := h.rootInode
  have hput : iunlockput (D ROOTINO) = .ok () := by
    rw [iunlockput, hnlink]
    rfl
  rw [Mkfs.namei, namex, ite_self, namexFrom, skipelem_single hne hslash]
  dsimp only
  rw [hilock, ok_bind, if_neg (by rw [htype]; exact fun hdir => hdir rfl),
    if_neg (by simp), h.dirlookup hnamed hfile hnul helem, ok_bind, hput, ok_bind]
  dsimp only
  rw [namexFrom, skipelem_nil]
  rfl

lemma Holds.readi_file (hfile : files[k]? = some file) :
    Mkfs.ilock s.image (k + 2) = .ok (D (k + 2)) ∧ (D (k + 2)).size.toNat = file.bytes.length ∧
      readi s.image (D (k + 2)) 0 (D (k + 2)).size = .ok (some file.bytes) := by
  have hk := (List.getElem?_eq_some_iff.mp hfile).1
  have hlt := Nat.add_lt_add_right hk 2
  have hcount : k + 2 < (Files.listed files).rounded.count := by
    rwa [Files.rounded_count, Files.count_listed]
  have htype : (Files.listed files).rounded.type (k + 2) = T_FILE :=
    Files.type_listed (by change 1 < _; omega) hcount
  have hbytes : (Files.listed files).rounded.contents (k + 2) = file.bytes :=
    Files.contents_listed hfile
  have hsize : (D (k + 2)).size.toNat = file.bytes.length := by
    rw [h.toNat_size (Nat.succ_pos _) hlt, Files.rounded_size,
      Function.update_of_ne (by change k + 2 ≠ 1; omega), (Files.exact_listed files).size,
      ← hbytes]
    rfl
  have hheld := h.table.held (k + 2)
  have htight := h.tight (k + 2)
  rw [hbytes] at hheld htight
  refine ⟨h.ilock (Nat.succ_pos _) hcount (by rw [htype]; decide), hsize, ?_⟩
  rw [hheld.readi (h.placed _) htight.shaped htight.length_le
    (by rw [h.type _ (Nat.succ_pos _) hcount, htype]; decide) htight.le_length
    (Nat.le_of_eq hsize.symm) (by rw [hsize, UInt32.toNat_zero, Nat.zero_add]),
    UInt32.toNat_zero, List.drop_zero, hsize, List.take_length]

end
end Image

/-- `mkfs` and the kernel agree on the contents of files. -/
theorem kernel_reads_files {files : List HostFile} (hfits : Fits files) (hnamed : Named files)
    (hinodes : files.length + 1 ≤ NINODES) : ∃ s, main files start = .ok () s ∧
      ∀ file ∈ files, ∀ elem, slash ∉ elem → 0 ∉ elem →
        elem.take DIRSIZ = file.stored.take DIRSIZ → ∀ slashes name, ∃ inum ip,
          namei s.image ROOTINO (List.replicate slashes slash ++ elem) name = .ok (some inum) ∧
          ilock s.image inum = .ok ip ∧ ip.size.toNat = file.bytes.length ∧
          readi s.image ip 0 ip.size = .ok (some file.bytes) := by
  have hroom : files.length + 2 ≤ ROOM := by
    change _ ≤ 200 at hinodes
    change _ ≤ 208
    omega
  obtain ⟨s, hmain, hfinished⟩ := hfits.main_finishes hroom
  obtain ⟨E, D, hholds⟩ := hfinished.holds
  refine ⟨s, hmain, fun file hmem elem hslash hnul helem slashes name => ?_⟩
  obtain ⟨k, hfile⟩ := getElem?_of_mem hmem
  exact ⟨k + 2, D (k + 2), hholds.namei hnamed hfile hslash hnul helem slashes name,
    hholds.readi_file hfile⟩

/-- The file `_cat`, of three bytes that arrive in two parts. -/
def catFile : HostFile where
  name := ⟨[95, 99, 97, 116], by decide⟩
  contents := some [⟨[1, 2], by decide, by decide⟩, ⟨[3], by decide, by decide⟩]

/-- The kernel reads the three bytes from `/cat`. -/
theorem kernel_reads_cat : ∃ s, main [catFile] start = .ok () s ∧ ∃ inum ip,
      namei s.image ROOTINO [47, 99, 97, 116] [] = .ok (some inum) ∧
        ilock s.image inum = .ok ip ∧ ip.size.toNat = 3 ∧
        readi s.image ip 0 ip.size = .ok (some [1, 2, 3]) := by
  have hone : ∀ {P : HostFile → Prop}, P catFile → ∀ file ∈ [catFile], P file := fun h file hmem =>
    mem_singleton.mp hmem ▸ h
  have hfits : Fits [catFile] := ⟨hone (by decide), hone (by decide), hone (by decide), by decide⟩
  have hnamed : Named [catFile] := ⟨hone (by decide), hone (by decide), hone (by decide), by decide⟩
  obtain ⟨s, hmain, hread⟩ := kernel_reads_files hfits hnamed (by decide)
  exact ⟨s, hmain, hread catFile mem_cons_self [99, 97, 116] (by decide) (by decide) rfl 1 []⟩

end Xv6.Mkfs
