import IACore.FileOps.Equiv.Backing
import Mathlib.Data.List.Pairwise

/-!
# What other calls leave alone

As long as nobody calls `unmap_file` for it, an entry of `s_mapped_files` and its mapping stay
(`Accounted.step_keeps`), and a call of `map_file` or of `map_shared_memory` adds one entry at an
address that was free, or none (`mapFile_cases`, `mapSharedMemory_cases`).
-/

namespace IACore

open FileOps UniqueHandle

namespace Posix

variable {k k' k'' : Posix} {p : ℕ}

/-- What is mapped at an address stays. -/
def Keeps (k k' : Posix) (p : ℕ) : Prop := ∀ v ∈ k.mappings, v.address = p → v ∈ k'.mappings

theorem Keeps.refl (k : Posix) (p : ℕ) : k.Keeps k p := fun _ hv _ => hv

theorem Keeps.trans (h : k.Keeps k' p) (h' : k'.Keeps k'' p) : k.Keeps k'' p :=
  fun v hv hp => h' v (h v hv hp) hp

theorem Keeps.of_subset (h : k.mappings ⊆ k'.mappings) : k.Keeps k' p := fun _ hv _ => h hv

/-- Two mappings with the same start are the same. -/
theorem Sound.eq_of_address (h : k.Sound) {v w : Vma} (hv : v ∈ k.mappings) (hw : w ∈ k.mappings)
    {address : ℕ} (hav : v.address ≤ address) (hva : address < v.address + v.length)
    (haw : w.address ≤ address) (hwa : address < w.address + w.length) : v = w := by
  have hsymm : Std.Symm Vma.Apart := ⟨fun _ _ => Or.symm⟩
  by_contra hne
  rcases h.apart.forall hv hw hne with hlt | hlt
  · omega
  · omega

/-- Unmapping at one address leaves what is at another. -/
theorem Sound.keeps_munmap (h : k.Sound) {address size : ℕ}
    (hmem : (address, pageAlign size) ∈ k.live) (hne : address ≠ p) :
    k.Keeps (k.munmap address size) p := by
  intro v hv hp
  obtain ⟨w, hw, heq⟩ := List.mem_map.mp (Multiset.mem_coe.mp hmem)
  obtain ⟨rfl, hlength⟩ := Prod.mk.inj heq
  have hvw : v ≠ w := by
    rintro rfl
    exact hne hp
  have hsymm : Std.Symm Vma.Apart := ⟨fun _ _ => Or.symm⟩
  have hwithout := Vma.without_of_apart (h.apart.forall hv hw hvw) (h.nonempty v hv)
  apply List.mem_flatMap.mpr
  refine ⟨v, hv, ?_⟩
  rw [← hlength, hwithout]
  exact List.mem_singleton_self v

/-- The byte of a mapping that is at an address. -/
theorem Sound.find_mapping (h : k.Sound) {v : Vma} (hv : v ∈ k.mappings) {i : ℕ}
    (hi : i < v.length) :
    (k.mappings.find? fun w => w.address ≤ v.address + i ∧ v.address + i < w.address + w.length) =
      some v := by
  rcases hfind : k.mappings.find? fun w =>
      w.address ≤ v.address + i ∧ v.address + i < w.address + w.length with _ | w
  · have hnot := List.find?_eq_none.mp hfind v hv
    simp only [decide_eq_true_eq] at hnot
    omega
  · have hpred := List.find?_some hfind
    simp only [decide_eq_true_eq] at hpred
    rw [hfind, h.eq_of_address (List.mem_of_find?_eq_some hfind) hv hpred.1 hpred.2
      (Nat.le_add_right _ _) (Nat.add_lt_add_left hi _)]

/-- `open` for a file that exists, neither to create nor to truncate it. -/
theorem openName_existing {space : Space} {name : String} {access : FileAccess}
    {answer : Except ℕ ℤ} {fd : ℤ}
    (h : k.openName space name ⟨access, false, false, false⟩ answer = .ok (fd, k')) :
    ∃ inode, k.names space name = some inode ∧ k'.find fd = some ⟨fd, inode, access⟩ ∧
      k'.size = k.size ∧ k'.mappings = k.mappings := by
  obtain ⟨-, -, inode, k₁, hresolve, rfl⟩ := openName_eq_ok h
  unfold Posix.resolve at hresolve
  rcases hname : k.names space name with _ | inode'
  · simp [hname] at hresolve
  · simp only [hname] at hresolve
    obtain ⟨rfl, rfl⟩ := Prod.mk.inj (Except.ok.inj hresolve)
    exact ⟨inode', rfl, List.find?_cons_of_pos (by simp), rfl, rfl⟩

end Posix

namespace Mappings

variable {ι : Type*} {σ σ' : Mappings ι} {p : ℕ}

/-- An entry stays, and its mapping. -/
structure Keeps (σ σ' : Mappings ι) (p : ℕ) : Prop where
  entry : σ.mappedFiles p ≠ none → σ'.mappedFiles p = σ.mappedFiles p
  mapping : σ.mappedFiles p ≠ none → σ.posix.Keeps σ'.posix p

theorem Keeps.of_mappings (hentries : σ'.mappedFiles = σ.mappedFiles)
    (hmappings : σ'.posix.mappings = σ.posix.mappings) : σ.Keeps σ' p where
  entry _ := congrFun hentries p
  mapping _ := .of_subset (by rw [hmappings]; exact List.Subset.refl _)

/-- An entry has a mapping, which no region has. -/
theorem Accounted.exists_of_entry (h : σ.Accounted) (hp : σ.mappedFiles p ≠ none) :
    ∃ size, σ.owner (.inr p) = some (p, pageAlign size) := by
  rcases hentry : σ.mappedFiles p with _ | ⟨fd, address, size⟩
  · exact absurd hentry hp
  · obtain rfl := h.key p fd address size hentry
    refine ⟨size, ?_⟩
    rw [owner, hentry]
    rfl

section

variable [DecidableEq ι] {i j : ι}

/-- Two owners of mappings at one address are the same. -/
theorem Accounted.owner_eq_of_address (h : σ.Accounted) {o o' : ι ⊕ ℕ} {address length length' : ℕ}
    (ho : σ.owner o = some (address, length)) (ho' : σ.owner o' = some (address, length')) :
    o = o' := by
  obtain ⟨v, hv, heq⟩ := List.mem_map.mp (Multiset.mem_coe.mp (h.mapped.mem ho))
  obtain ⟨w, hw, heq'⟩ := List.mem_map.mp (Multiset.mem_coe.mp (h.mapped.mem ho'))
  obtain ⟨hav, hlv⟩ := Prod.mk.inj heq
  obtain ⟨haw, hlw⟩ := Prod.mk.inj heq'
  have hvpos := h.posix.nonempty v hv
  have hwpos := h.posix.nonempty w hw
  have hva : address < v.address + v.length := by omega
  have hwa : address < w.address + w.length := by omega
  have hvw : v = w := h.posix.eq_of_address hv hw hav.le hva haw.le hwa
  subst hvw
  obtain rfl := hlv.symm.trans hlw
  exact h.mapped.unique h.posix.live_nodup ho ho'

/-- A region that gives back what it has leaves the entries' mappings. -/
theorem Accounted.keeps_unmapRegion (h : σ.Accounted) {region : MemoryMappedRegion}
    (hi : σ.objects i = some region) (hp : σ.mappedFiles p ≠ none) :
    σ.posix.Keeps (region.unmap σ.posix).2 p := by
  unfold MemoryMappedRegion.unmap
  split_ifs with hptr
  · exact .refl _ p
  · have howner : σ.owner (.inl i) = some (region.ptr, pageAlign region.size) := by
      rw [owner, hi]
      exact if_neg hptr
    apply h.posix.keeps_munmap (h.mapped.mem howner)
    rintro rfl
    obtain ⟨size, hentry⟩ := h.exists_of_entry hp
    cases h.owner_eq_of_address howner hentry

theorem Accounted.keeps_moveAssign (h : σ.Accounted) {this other : MemoryMappedRegion}
    (hi : σ.objects i = some this) : σ.Keeps (σ.moveAssign i j this other) p := by
  unfold Mappings.moveAssign
  split_ifs
  · exact .of_mappings rfl rfl
  · exact ⟨fun _ => rfl, h.keeps_unmapRegion hi⟩

theorem Accounted.keeps_map (h : σ.Accounted) {region region' : MemoryMappedRegion}
    (hi : σ.objects i = some region) {handle : ℤ} {offset size : UInt64} {answers : Answers}
    {k : Posix} {result : Except String Unit}
    (hmap : region.map handle offset size answers σ.posix = (result, region', k)) :
    σ.Keeps (σ.setObject i (some region') k) p := by
  refine ⟨fun _ => rfl, fun hp => ?_⟩
  show σ.posix.Keeps k p
  rcases mapEmpty_cases hmap with ⟨-, hextends⟩ | ⟨k₁, address, hextends, -, hmmap, -⟩
  · apply (h.keeps_unmapRegion hi hp).trans (.of_subset _)
    rw [hextends.mappings]
    exact List.Subset.refl _
  · obtain ⟨-, -, -, -, file, -, -, -, rfl⟩ := Posix.mmap_eq_ok hmmap
    replace hextends : (region.unmap σ.posix).2.Extends k₁ := hextends
    apply (h.keeps_unmapRegion hi hp).trans (.of_subset _)
    rw [← hextends.mappings]
    exact List.subset_cons_self _ _

end

/-! ### The table -/

theorem Accounted.keeps_unmapFile (h : σ.Accounted) {mappedPtr : ℕ} (hne : mappedPtr ≠ p) :
    σ.Keeps (σ.unmapFile mappedPtr) p := by
  unfold Mappings.unmapFile
  rcases hentry : σ.mappedFiles mappedPtr with _ | ⟨fd, address, size⟩
  · exact .of_mappings rfl rfl
  · obtain rfl := h.key _ _ _ _ hentry
    have howner : σ.owner (.inr address) = some (address, pageAlign size) := by
      rw [owner, hentry]
      rfl
    refine ⟨fun _ => Function.update_of_ne hne.symm _ _, fun hp => ?_⟩
    have hkeeps := h.posix.keeps_munmap (h.mapped.mem howner) hne
    dsimp only
    split_ifs
    · exact hkeeps
    · exact hkeeps

theorem unmapFile_self (σ : Mappings ι) (mappedPtr : ℕ) :
    (σ.unmapFile mappedPtr).mappedFiles = Function.update σ.mappedFiles mappedPtr none := by
  unfold Mappings.unmapFile
  rcases hentry : σ.mappedFiles mappedPtr with _ | ⟨fd, address, size⟩
  · show σ.mappedFiles = _
    rw [← hentry, Function.update_eq_self]
  · rfl

/-- `k` is `σ`'s system with one more mapping, where there was none. -/
structure Adds (σ : Mappings ι) (k : Posix) (v : Vma) (size : ℕ) : Prop where
  size_ne : size ≠ 0
  length : v.length = pageAlign size
  free : σ.posix.Free v.address (pageAlign size)
  mappings : k.mappings = v :: σ.posix.mappings

theorem Adds.not_entered {k : Posix} {v : Vma} {size : ℕ} (h : σ.Adds k v size)
    (haccounted : σ.Accounted) : σ.mappedFiles v.address = none :=
  haccounted.not_entered h.size_ne h.free

theorem Adds.keeps {k : Posix} {v : Vma} {size : ℕ} {fd : ℤ} (h : σ.Adds k v size)
    (haccounted : σ.Accounted) : σ.Keeps (σ.enter k fd v.address size) p := by
  refine ⟨fun hp => Function.update_of_ne ?_ _ _, fun _ => .of_subset ?_⟩
  · rintro rfl
    exact hp (h.not_entered haccounted)
  · show σ.posix.mappings ⊆ k.mappings
    rw [h.mappings]
    exact List.subset_cons_self _ _

/-- `map_file` fails, or it maps the whole file that has the name. -/
theorem mapFile_cases (σ : Mappings ι) (path : String) (answers : Answers) :
    (∃ message k, σ.mapFile path answers = (.error message, { σ with posix := k }) ∧
      k.mappings = σ.posix.mappings) ∨
    ∃ fd address inode k, σ.mapFile path answers =
        (.ok (address, σ.posix.size inode), σ.enter k fd address (σ.posix.size inode)) ∧
      σ.posix.names .file path = some inode ∧
      σ.Adds k ⟨address, pageAlign (σ.posix.size inode), inode, 0⟩ (σ.posix.size inode) := by
  unfold Mappings.mapFile
  rcases hopen : σ.posix.openName .file path ⟨.read, false, false, false⟩ answers.openFile with
    errno | ⟨fd, k⟩
  · exact .inl ⟨_, σ.posix, rfl, rfl⟩
  obtain ⟨inode, hname, hfile, hsize, hmappings⟩ := Posix.openName_existing hopen
  have hstat : k.fstat fd answers.fstat =
      if answers.fstat then some (σ.posix.size inode) else none := by
    rw [Posix.fstat, hfile, hsize]
  dsimp only
  rw [hstat]
  by_cases hanswer : answers.fstat = true
  · rw [if_pos hanswer]
    dsimp only
    split_ifs with hzero
    · exact .inl ⟨_, k.close fd, rfl, hmappings⟩
    rcases hmmap : k.mmap (σ.posix.size inode) false fd 0 answers.mmap with errno | ⟨address, k'⟩
    · exact .inl ⟨_, k.close fd, rfl, hmappings⟩
    obtain ⟨-, -, hfree, -, file', hfile', -, -, rfl⟩ := Posix.mmap_eq_ok hmmap
    obtain rfl := Option.some.inj (hfile.symm.trans hfile')
    refine .inr ⟨fd, address, inode, _, rfl, hname, hzero, rfl, ?_, ?_⟩
    · rw [Posix.Free, ← hmappings]
      exact hfree
    · rw [← hmappings]
      rfl
  · rw [if_neg hanswer]
    exact .inl ⟨_, k.close fd, rfl, hmappings⟩

theorem mapOpened_cases {σ : Mappings ι} {name : String} {size : UInt64} {fd : ℤ}
    {answers : Answers} {k : Posix} (hmappings : k.mappings = σ.posix.mappings) :
    (∃ message k', σ.mapOpened name size fd answers k = (.error message, { σ with posix := k' }) ∧
      k'.mappings = σ.posix.mappings) ∨
    ∃ v k', σ.mapOpened name size fd answers k =
        (.ok v.address, σ.enter k' fd v.address size.toNat) ∧ σ.Adds k' v size.toNat := by
  unfold Mappings.mapOpened
  rcases hmmap : k.mmap size.toNat true fd 0 answers.mmap with errno | ⟨address, k'⟩
  · exact .inl ⟨_, k.close fd, rfl, hmappings⟩
  · obtain ⟨hzero, -, hfree, -, file, -, -, -, rfl⟩ := Posix.mmap_eq_ok hmmap
    refine .inr ⟨⟨address, pageAlign size.toNat, file.inode, 0⟩, _, rfl, hzero, rfl, ?_, ?_⟩
    · rw [Posix.Free, ← hmappings]
      exact hfree
    · rw [← hmappings]
      rfl

/-- `map_shared_memory` fails, or it maps. -/
theorem mapSharedMemory_cases (σ : Mappings ι) (name : String) (size : UInt64) (isOwner : Bool)
    (answers : Answers) :
    (∃ message k, σ.mapSharedMemory name size isOwner answers =
        (.error message, { σ with posix := k }) ∧ k.mappings = σ.posix.mappings) ∨
    ∃ fd v k, σ.mapSharedMemory name size isOwner answers =
        (.ok v.address, σ.enter k fd v.address size.toNat) ∧ σ.Adds k v size.toNat := by
  have hopened : ∀ {flags : OpenFlags} {fd : ℤ} {k : Posix},
      σ.posix.openName .sharedMemory name flags answers.openFile = .ok (fd, k) →
      k.mappings = σ.posix.mappings := by
    intro flags fd k hopen
    obtain ⟨-, -, inode, k₁, hresolve, rfl⟩ := Posix.openName_eq_ok hopen
    exact (Posix.resolve_eq_ok hresolve).1
  unfold Mappings.mapSharedMemory
  cases isOwner with
  | true =>
    rw [if_pos rfl]
    rcases hopen : σ.posix.openName .sharedMemory name ⟨.readWrite, true, false, true⟩
      answers.openFile with errno | ⟨fd, k⟩
    · exact .inl ⟨_, σ.posix, rfl, rfl⟩
    · have hmappings := hopened hopen
      dsimp only
      rcases htruncate : k.ftruncate fd (offT size) answers.ftruncate with _ | k'
      · exact .inl ⟨_, (k.close fd).shmUnlink name, rfl, hmappings⟩
      · obtain ⟨-, file, -, hk'⟩ := Posix.ftruncate_eq_some htruncate
        have hmappings' : k'.mappings = σ.posix.mappings := by rw [hk', ← hmappings]
        rcases mapOpened_cases hmappings' with hfails | ⟨v, k₁, hmaps, hadds⟩
        · exact .inl hfails
        · exact .inr ⟨fd, v, k₁, hmaps, hadds⟩
  | false =>
    rw [if_neg Bool.false_ne_true]
    rcases hopen : σ.posix.openName .sharedMemory name ⟨.readWrite, false, false, false⟩
      answers.openFile with errno | ⟨fd, k⟩
    · exact .inl ⟨_, σ.posix, rfl, rfl⟩
    · rcases mapOpened_cases (hopened hopen) with hfails | ⟨v, k₁, hmaps, hadds⟩
      · exact .inl hfails
      · exact .inr ⟨fd, v, k₁, hmaps, hadds⟩

/-- The events after which the table is what it was. -/
def Event.Aside : Event ι → Prop
  | .mapFile .. => False
  | .mapSharedMemory .. => False
  | .unmapFile _ => False
  | _ => True

/-- An event that does not map or unmap files leaves the table and the mappings of its entries. -/
theorem Accounted.step_keeps [DecidableEq ι] (h : σ.Accounted) {event : Event ι}
    (haside : event.Aside) (hstep : σ.step event = some σ') :
    σ'.mappedFiles = σ.mappedFiles ∧ ∀ p, σ.Keeps σ' p := by
  have heffect := step_effect hstep
  cases event with
  | «open» path access mode answers =>
    rcases heffect with rfl | ⟨fd, k, hopen, rfl⟩
    · exact ⟨rfl, fun _ => .of_mappings rfl rfl⟩
    · obtain ⟨-, -, inode, k₁, hresolve, rfl⟩ := Posix.openName_eq_ok hopen
      exact ⟨rfl, fun _ => .of_mappings rfl (Posix.resolve_eq_ok hresolve).1⟩
  | close handle =>
    rcases heffect with rfl | ⟨-, rfl⟩
    · exact ⟨rfl, fun _ => .of_mappings rfl rfl⟩
    · exact ⟨rfl, fun _ => .of_mappings rfl rfl⟩
  | construct i =>
    obtain ⟨-, rfl⟩ := heffect
    exact ⟨rfl, fun _ => .of_mappings rfl rfl⟩
  | moveConstruct i j =>
    obtain ⟨other, hi, hj, rfl⟩ := heffect
    have hmoved : ∀ p, Mappings.Keeps (σ.setObject i (some .empty) σ.posix)
        ((σ.setObject i (some .empty) σ.posix).moveAssign i j .empty other) p := fun p =>
      (h.construct hi).keeps_moveAssign (Function.update_self _ _ _)
    refine ⟨?_, fun p => ⟨(hmoved p).entry, (hmoved p).mapping⟩⟩
    unfold Mappings.moveAssign
    split_ifs
    · rfl
    · rfl
  | assign i j =>
    obtain ⟨this, other, hi, hj, rfl⟩ := heffect
    refine ⟨?_, fun p => h.keeps_moveAssign hi⟩
    unfold Mappings.moveAssign
    split_ifs
    · rfl
    · rfl
  | destroy i =>
    obtain ⟨region, hi, rfl⟩ := heffect
    exact ⟨rfl, fun p => ⟨fun _ => rfl, h.keeps_unmapRegion hi⟩⟩
  | map i handle offset size answers =>
    obtain ⟨region, result, region', k, hi, hmap, rfl⟩ := heffect
    exact ⟨rfl, fun p => h.keeps_map hi hmap⟩
  | unmap i =>
    obtain ⟨region, hi, rfl⟩ := heffect
    exact ⟨rfl, fun p => ⟨fun _ => rfl, h.keeps_unmapRegion hi⟩⟩
  | mapFile path answers => exact haside.elim
  | mapSharedMemory name size isOwner answers => exact haside.elim
  | unmapFile mappedPtr => exact haside.elim
  | unlinkSharedMemory name =>
    rcases heffect with rfl | rfl
    · exact ⟨rfl, fun _ => .of_mappings rfl rfl⟩
    · exact ⟨rfl, fun _ => .of_mappings rfl rfl⟩

end Mappings

end IACore
