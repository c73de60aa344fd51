import IACore.FileOps.Mapping
import IACore.Library.EventRun
import IACore.Library.UniqueHandle

/-!
# Every mapping and every descriptor has one owner

A mapping belongs to one region or to one entry of `s_mapped_files`, a descriptor to whoever called
`native_open_file` or to one entry, in every state that a run reaches (`mappings_accounted`).  So no
call unmaps or closes what another owner still uses, and nothing is left when all owners have let
go.

What the system calls do to the two lists comes first (`openName_eq_ok`, `mmap_eq_ok`, `munmap`),
then what the functions do (`Accounted.unmapRegion`, `Accounted.mapRegion`, `Accounted.enter`), then
the steps.
-/

namespace IACore

open FileOps UniqueHandle

/-! ### The system -/

/-- Two mappings have no address in common. -/
def Vma.Apart (v w : Vma) : Prop :=
  v.address + v.length ≤ w.address ∨ w.address + w.length ≤ v.address

theorem Vma.without_self (v : Vma) : v.without v.address (v.address + v.length) = [] := by
  simp [Vma.without]

theorem Vma.without_of_apart {v w : Vma} (h : v.Apart w) (hlength : 0 < v.length) :
    v.without w.address (w.address + w.length) = [v] := by
  unfold Vma.without
  rcases h with hbefore | hbehind
  · have hmin : min v.length (w.address - v.address) = v.length := by omega
    rw [if_pos (by omega), if_neg (by omega), hmin, List.append_nil]
  · have hmax : max (w.address + w.length) v.address = v.address := by omega
    have hlen : v.address + v.length - v.address = v.length := by omega
    rw [if_neg (by omega), if_pos (by omega), hmax, hlen, Nat.sub_self, Nat.add_zero,
      List.nil_append]

namespace Posix

variable {k k' : Posix}

/-- The extents that are mapped. -/
def live (k : Posix) : Multiset (ℕ × ℕ) := k.mappings.map fun v => (v.address, v.length)

/-- The descriptors that are open. -/
def opened (k : Posix) : Multiset ℤ := k.descriptors.map OpenFile.fd

/-- No two mappings overlap, none is empty, and no two open files have one descriptor. -/
structure Sound (k : Posix) : Prop where
  apart : k.mappings.Pairwise Vma.Apart
  nonempty : ∀ v ∈ k.mappings, 0 < v.length
  nodup : k.opened.Nodup
  nonneg : ∀ fd ∈ k.opened, 0 ≤ fd

theorem Sound.congr (h : k.Sound) (hmappings : k'.mappings = k.mappings)
    (hdescriptors : k'.descriptors = k.descriptors) : k'.Sound := by
  constructor
  · rw [hmappings]
    exact h.apart
  · rw [hmappings]
    exact h.nonempty
  · rw [opened, hdescriptors]
    exact h.nodup
  · rw [opened, hdescriptors]
    exact h.nonneg

/-- No extent is mapped twice. -/
theorem Sound.live_nodup (h : k.Sound) : k.live.Nodup := by
  rw [live, Multiset.coe_nodup, List.Nodup, List.pairwise_map]
  refine h.apart.imp_of_mem fun {v w} hv hw hapart heq => ?_
  have hlength := h.nonempty v hv
  have hlength' := h.nonempty w hw
  obtain ⟨haddress, hsize⟩ := Prod.mk.inj heq
  rcases hapart with hle | hle
  · omega
  · omega

theorem resolve_eq_ok {space : Space} {name : String} {flags : OpenFlags} {inode : ℕ}
    (h : k.resolve space name flags = .ok (inode, k')) :
    k'.mappings = k.mappings ∧ k'.descriptors = k.descriptors := by
  unfold resolve at h
  rcases hname : k.names space name with _ | inode'
  · simp only [hname] at h
    split_ifs at h
    obtain ⟨-, rfl⟩ := Prod.mk.inj (Except.ok.inj h)
    exact ⟨rfl, rfl⟩
  · simp only [hname] at h
    by_cases hexcl : flags.creat ∧ flags.excl
    · rw [if_pos hexcl] at h
      cases h
    · rw [if_neg hexcl] at h
      obtain ⟨-, rfl⟩ := Prod.mk.inj (Except.ok.inj h)
      exact ⟨rfl, rfl⟩

theorem openName_eq_ok {space : Space} {name : String} {flags : OpenFlags} {answer : Except ℕ ℤ}
    {fd : ℤ} (h : k.openName space name flags answer = .ok (fd, k')) :
    0 ≤ fd ∧ k.find fd = none ∧ ∃ inode k₁, k.resolve space name flags = .ok (inode, k₁) ∧
      k' = { k₁ with descriptors := ⟨fd, inode, flags.access⟩ :: k₁.descriptors } := by
  unfold openName at h
  rcases answer with errno | fd'
  · cases h
  · dsimp only at h
    rcases hresolve : k.resolve space name flags with errno | ⟨inode, k₁⟩
    · rw [hresolve] at h
      split_ifs at h
    · rw [hresolve] at h
      split_ifs at h with hused
      obtain ⟨rfl, rfl⟩ := Prod.mk.inj (Except.ok.inj h)
      rw [not_or, not_lt, Bool.not_eq_true, Option.isSome_eq_false_iff,
        Option.isNone_iff_eq_none] at hused
      exact ⟨hused.1, hused.2, inode, k₁, rfl, rfl⟩

theorem notMem_opened {fd : ℤ} (h : k.find fd = none) : fd ∉ k.opened := by
  intro hmem
  obtain ⟨file, hfile, heq⟩ := List.mem_map.mp (Multiset.mem_coe.mp hmem)
  have hne := List.find?_eq_none.mp h file hfile
  exact hne (by simpa using heq)

theorem ftruncate_eq_some {fd length : ℤ} {answer : Bool}
    (h : k.ftruncate fd length answer = some k') :
    0 ≤ length ∧ ∃ file, k.find fd = some file ∧
      k' = { k with size := Function.update k.size file.inode length.toNat } := by
  unfold ftruncate at h
  rcases hfile : k.find fd with _ | file
  · rw [hfile] at h
    cases h
  · rw [hfile] at h
    dsimp only at h
    split_ifs at h with hlength
    obtain rfl := Option.some.inj h
    exact ⟨hlength.2.1, file, rfl, rfl⟩

/-- Some files may have become longer, and nothing else has changed. -/
structure Extends (k k' : Posix) : Prop where
  names : k'.names = k.names
  nextInode : k'.nextInode = k.nextInode
  descriptors : k'.descriptors = k.descriptors
  mappings : k'.mappings = k.mappings
  size : ∀ inode, k.size inode ≤ k'.size inode

theorem Extends.refl (k : Posix) : k.Extends k := ⟨rfl, rfl, rfl, rfl, fun _ => le_rfl⟩

/-- A new mapping is one of whole pages that nobody had. -/
theorem mmap_eq_ok {size : ℕ} {shared : Bool} {fd offset : ℤ} {answer : Except ℕ ℕ} {address : ℕ}
    (h : k.mmap size shared fd offset answer = .ok (address, k')) :
    size ≠ 0 ∧ address ≠ 0 ∧ k.Free address (pageAlign size) ∧ k'.descriptors = k.descriptors ∧
      ∃ file, k.find fd = some file ∧ 0 ≤ offset ∧ address + size ≤ 140737488355328 ∧
        k' = { k with mappings :=
          ⟨address, pageAlign size, file.inode, offset.toNat⟩ :: k.mappings } := by
  unfold mmap at h
  rcases answer with errno | address'
  · cases h
  · dsimp only at h
    rcases hfile : k.find fd with _ | file
    · rw [hfile] at h
      cases h
    · rw [hfile] at h
      dsimp only at h
      split_ifs at h with haccess hsize haddress
      obtain ⟨rfl, rfl⟩ := Prod.mk.inj (Except.ok.inj h)
      simp only [not_or, not_not, not_lt] at hsize haddress
      exact ⟨hsize.1, haddress.1, haddress.2.2.2, rfl, file, rfl, hsize.2.1, haddress.2.2.1, rfl⟩

theorem le_pageAlign (size : ℕ) : size ≤ pageAlign size := by
  unfold pageAlign
  omega

theorem Sound.openName (h : k.Sound) {space : Space} {name : String} {flags : OpenFlags}
    {answer : Except ℕ ℤ} {fd : ℤ} (hopen : k.openName space name flags answer = .ok (fd, k')) :
    k'.Sound ∧ k'.live = k.live ∧ k'.opened = fd ::ₘ k.opened := by
  obtain ⟨hfd, hfind, inode, k₁, hresolve, rfl⟩ := openName_eq_ok hopen
  obtain ⟨hmappings, hdescriptors⟩ := resolve_eq_ok hresolve
  have hopened : opened { k₁ with
      descriptors := ⟨fd, inode, flags.access⟩ :: k₁.descriptors } = fd ::ₘ k.opened := by
    rw [opened, opened, ← hdescriptors]
    rfl
  refine ⟨⟨?_, ?_, ?_, ?_⟩, ?_, hopened⟩
  · show k₁.mappings.Pairwise _
    rw [hmappings]
    exact h.apart
  · show ∀ v ∈ k₁.mappings, _
    rw [hmappings]
    exact h.nonempty
  · rw [hopened, Multiset.nodup_cons]
    exact ⟨notMem_opened hfind, h.nodup⟩
  · rw [hopened]
    intro fd' hmem
    rcases Multiset.mem_cons.mp hmem with rfl | hmem
    · exact hfd
    · exact h.nonneg fd' hmem
  · rw [live, live, ← hmappings]

/-- A close takes one descriptor away. -/
theorem Sound.close (h : k.Sound) {fd : ℤ} (hmem : fd ∈ k.opened) :
    (k.close fd).Sound ∧ (k.close fd).live = k.live ∧ k.opened = fd ::ₘ (k.close fd).opened := by
  have hopened : (k.close fd).opened = k.opened.filter fun fd' => fd' ≠ fd := by
    simp only [opened, Posix.close, Multiset.filter_coe, List.filter_map]
    rfl
  have hcons : k.opened = fd ::ₘ (k.close fd).opened := by
    rw [hopened, ← Multiset.cons_erase hmem, Multiset.cons_inj_right, Multiset.cons_erase hmem,
      h.nodup.erase_eq_filter]
  refine ⟨⟨h.apart, h.nonempty, ?_, ?_⟩, rfl, hcons⟩
  · rw [hopened]
    exact h.nodup.filter _
  · rw [hopened]
    intro fd' hfd'
    exact h.nonneg fd' (Multiset.mem_of_mem_filter hfd')

theorem Sound.mmap (h : k.Sound) {size : ℕ} {shared : Bool} {fd offset : ℤ}
    {answer : Except ℕ ℕ} {address : ℕ}
    (hmmap : k.mmap size shared fd offset answer = .ok (address, k')) :
    k'.Sound ∧ k'.live = (address, pageAlign size) ::ₘ k.live ∧ k'.opened = k.opened := by
  obtain ⟨hsize, -, hfree, -, file, -, -, -, rfl⟩ := mmap_eq_ok hmmap
  refine ⟨⟨?_, ?_, h.nodup, h.nonneg⟩, rfl, rfl⟩
  · rw [List.pairwise_cons]
    exact ⟨hfree, h.apart⟩
  · rintro v (_ | ⟨_, hv⟩)
    · exact (Nat.pos_of_ne_zero hsize).trans_le (le_pageAlign size)
    · exact h.nonempty v hv

/-- Unmapping what is one mapping takes that away, and leaves all others as they are. -/
theorem Sound.munmap (h : k.Sound) {address size : ℕ}
    (hmem : (address, pageAlign size) ∈ k.live) :
    (k.munmap address size).Sound ∧
      k.live = (address, pageAlign size) ::ₘ (k.munmap address size).live ∧
      (k.munmap address size).mappings.Sublist k.mappings := by
  obtain ⟨v, hv, heq⟩ := List.mem_map.mp (Multiset.mem_coe.mp hmem)
  obtain ⟨rfl, hlength⟩ := Prod.mk.inj heq
  obtain ⟨before, behind, hsplit⟩ := List.append_of_mem hv
  have hapart := h.apart
  rw [hsplit, List.pairwise_append, List.pairwise_cons] at hapart
  have hkeep : ∀ w ∈ before ++ behind, w.without v.address (v.address + v.length) = [w] := by
    intro w hw
    have hlen : 0 < w.length := by
      apply h.nonempty
      rw [hsplit]
      simp only [List.mem_append, List.mem_cons] at hw ⊢
      tauto
    apply Vma.without_of_apart _ hlen
    rcases List.mem_append.mp hw with hw | hw
    · exact hapart.2.2 w hw v List.mem_cons_self
    · exact (hapart.2.1.1 w hw).symm
  have hmappings : (k.munmap v.address size).mappings = before ++ behind := by
    show k.mappings.flatMap _ = _
    rw [← hlength, hsplit, List.flatMap_append, List.flatMap_cons, Vma.without_self,
      List.nil_append, ← List.flatMap_append]
    calc (before ++ behind).flatMap (fun w => w.without v.address (v.address + v.length))
        = (before ++ behind).flatMap fun w => [w] := by
          apply List.flatMap_congr
          exact hkeep
      _ = before ++ behind := List.flatMap_singleton' _
  have hsublist : (k.munmap v.address size).mappings.Sublist k.mappings := by
    rw [hmappings, hsplit]
    exact (List.Sublist.refl before).append (List.sublist_cons_self v behind)
  refine ⟨⟨h.apart.sublist hsublist, fun w hw => h.nonempty w (hsublist.subset hw), h.nodup,
    h.nonneg⟩, ?_, hsublist⟩
  · simp only [live, hmappings, hsplit, List.map_append, List.map_cons, hlength]
    rw [Multiset.cons_coe, Multiset.coe_eq_coe]
    exact List.perm_middle

end Posix

/-! ### The owners -/

/-- The extent of a region that has a mapping. -/
def FileOps.MemoryMappedRegion.extent (region : MemoryMappedRegion) : Option (ℕ × ℕ) :=
  if region.ptr = 0 then none else some (region.ptr, pageAlign region.size)

namespace Mappings

variable {ι : Type*}

/-- What the regions and the entries of the table hold of the mappings. -/
def owner (σ : Mappings ι) : ι ⊕ ℕ → Option (ℕ × ℕ)
  | .inl i => (σ.objects i).bind MemoryMappedRegion.extent
  | .inr p => (σ.mappedFiles p).map fun (_, address, size) => (address, pageAlign size)

/-- What the callers of `native_open_file` and the entries of the table hold of the descriptors. -/
def holder (σ : Mappings ι) : ℤ ⊕ ℕ → Option ℤ
  | .inl fd => if σ.handles fd then some fd else none
  | .inr p => (σ.mappedFiles p).map Prod.fst

/-- The owners hold what is mapped and what is open, no two the same; the table is in order. -/
structure Accounted (σ : Mappings ι) : Prop where
  mapped : Owned σ.owner σ.posix.live
  opened : Owned σ.holder σ.posix.opened
  posix : σ.posix.Sound
  key : ∀ p fd address size, σ.mappedFiles p = some (fd, address, size) → address = p

variable {σ σ' : Mappings ι}

/-- What changes neither the lists nor the owners. -/
theorem Accounted.congr (h : σ.Accounted) {k : Posix} (hmappings : k.mappings = σ.posix.mappings)
    (hdescriptors : k.descriptors = σ.posix.descriptors) : Accounted { σ with posix := k } := by
  refine ⟨?_, ?_, h.posix.congr hmappings hdescriptors, h.key⟩
  · show Owned σ.owner k.live
    rw [Posix.live, hmappings]
    exact h.mapped
  · show Owned σ.holder k.opened
    rw [Posix.opened, hdescriptors]
    exact h.opened

section

variable [DecidableEq ι]

theorem owner_setObject (i : ι) (object : Option MemoryMappedRegion) (k : Posix) :
    (σ.setObject i object k).owner =
      Function.update σ.owner (.inl i) (object.bind MemoryMappedRegion.extent) := by
  funext o
  rcases o with j | p
  · by_cases hji : j = i
    · subst hji
      simp [owner, setObject]
    · have hne : (Sum.inl j : ι ⊕ ℕ) ≠ .inl i := fun heq => hji (Sum.inl.inj heq)
      rw [Function.update_of_ne hne]
      simp [owner, setObject, Function.update_of_ne hji]
  · rfl

theorem owner_mappedFiles (p : ℕ) (entry : Option (ℤ × ℕ × ℕ)) (k : Posix) :
    owner { σ with posix := k, mappedFiles := Function.update σ.mappedFiles p entry } =
      Function.update σ.owner (.inr p)
        (entry.map fun (_, address, size) => (address, pageAlign size)) := by
  funext o
  rcases o with i | q
  · rfl
  · by_cases hqp : q = p
    · subst hqp
      simp [owner]
    · have hne : (Sum.inr q : ι ⊕ ℕ) ≠ .inr p := fun heq => hqp (Sum.inr.inj heq)
      rw [Function.update_of_ne hne]
      simp [owner, Function.update_of_ne hqp]

end

theorem holder_mappedFiles (p : ℕ) (entry : Option (ℤ × ℕ × ℕ)) (k : Posix) :
    holder { σ with posix := k, mappedFiles := Function.update σ.mappedFiles p entry } =
      Function.update σ.holder (.inr p) (entry.map Prod.fst) := by
  funext o
  rcases o with fd | q
  · rfl
  · by_cases hqp : q = p
    · subst hqp
      simp [holder]
    · have hne : (Sum.inr q : ℤ ⊕ ℕ) ≠ .inr p := fun heq => hqp (Sum.inr.inj heq)
      rw [Function.update_of_ne hne]
      simp [holder, Function.update_of_ne hqp]

theorem holder_handles (fd : ℤ) (isOpen : Bool) (k : Posix) :
    holder { σ with posix := k, handles := Function.update σ.handles fd isOpen } =
      Function.update σ.holder (.inl fd) (if isOpen then some fd else none) := by
  funext o
  rcases o with fd' | q
  · by_cases hfd : fd' = fd
    · subst hfd
      simp [holder]
    · have hne : (Sum.inl fd' : ℤ ⊕ ℕ) ≠ .inl fd := fun heq => hfd (Sum.inl.inj heq)
      rw [Function.update_of_ne hne]
      simp [holder, Function.update_of_ne hfd]
  · rfl

/-! ### Regions -/

/-- A region gives back what it has, and has nothing then. -/
theorem unmap_spec {k : Posix} (h : k.Sound) {region : MemoryMappedRegion}
    (hmem : ∀ extent, region.extent = some extent → extent ∈ k.live) :
    (region.unmap k).2.Sound ∧ k.live = single region.extent + (region.unmap k).2.live ∧
      (region.unmap k).2.opened = k.opened ∧ (region.unmap k).1.extent = none ∧
      (region.unmap k).2.mappings.Sublist k.mappings := by
  unfold MemoryMappedRegion.unmap MemoryMappedRegion.extent
  by_cases hptr : region.ptr = 0
  · rw [if_pos hptr, if_pos hptr]
    exact ⟨h, (zero_add _).symm, rfl, rfl, .refl _⟩
  · have hmem' := hmem (region.ptr, pageAlign region.size) (if_neg hptr)
    obtain ⟨hsound, hlive, hsublist⟩ := h.munmap hmem'
    rw [if_neg hptr, if_neg hptr]
    refine ⟨hsound, ?_, rfl, rfl, hsublist⟩
    rw [hlive, single_some, Multiset.singleton_add]

/-- The file is long enough for the region now, unless it could not be extended. -/
theorem extend_spec {k k' : Posix} {handle : ℤ} {stSize : ℕ} {endOffset : UInt64}
    {answers : Answers} (hstat : k.fstat handle answers.fstat = some stSize)
    (h : (if stSize < endOffset.toNat then k.ftruncate handle (offT endOffset) answers.ftruncate
      else some k) = some k') :
    k.Extends k' ∧ ∀ file, k'.find handle = some file → endOffset.toNat ≤ k'.size file.inode := by
  unfold Posix.fstat at hstat
  rcases hfile : k.find handle with _ | file
  · rw [hfile] at hstat
    cases hstat
  rw [hfile] at hstat
  dsimp only at hstat
  split_ifs at hstat
  obtain rfl := Option.some.inj hstat
  split_ifs at h with hshort
  · obtain ⟨hlength, file', hfile', rfl⟩ := Posix.ftruncate_eq_some h
    obtain rfl := Option.some.inj (hfile.symm.trans hfile')
    have hend : (offT endOffset).toNat = endOffset.toNat := by
      have hlt := endOffset.toNat_lt
      unfold offT at hlength ⊢
      split_ifs at hlength ⊢
      · exact Int.toNat_natCast _
      · omega
    constructor
    · refine ⟨rfl, rfl, rfl, rfl, fun inode => ?_⟩
      show k.size inode ≤ Function.update k.size file.inode _ inode
      by_cases hinode : inode = file.inode
      · rw [hinode, Function.update_self, hend]
        exact hshort.le
      · rw [Function.update_of_ne hinode]
    · intro file' hfile'
      obtain rfl := Option.some.inj (hfile.symm.trans hfile')
      show _ ≤ Function.update k.size file.inode _ file.inode
      rw [Function.update_self, hend]
  · obtain rfl := Option.some.inj h
    refine ⟨.refl k, fun file' hfile' => ?_⟩
    obtain rfl := Option.some.inj (hfile.symm.trans hfile')
    exact not_lt.mp hshort

/-- `map` fails and leaves the region without a mapping, or it maps; it may have extended the file
before. -/
theorem mapEmpty_cases {region region' : MemoryMappedRegion} {handle : ℤ} {offset size : UInt64}
    {answers : Answers} {k k' : Posix} {result : Except String Unit}
    (h : region.mapEmpty handle offset size answers k = (result, region', k')) :
    (region' = region ∧ k.Extends k') ∨
      ∃ (k₁ : Posix) (address : ℕ), k.Extends k₁ ∧
        (∀ file, k₁.find handle = some file → (offset + size).toNat ≤ k₁.size file.inode) ∧
        k₁.mmap size.toNat true handle (offT offset) answers.mmap = .ok (address, k') ∧
        region' = ⟨address, size.toNat⟩ := by
  unfold MemoryMappedRegion.mapEmpty at h
  by_cases hhandle : handle = invalidFileHandle
  · rw [if_pos hhandle] at h
    obtain ⟨-, rfl, rfl⟩ := by simpa only [Prod.mk.injEq] using h
    exact .inl ⟨rfl, .refl k⟩
  rw [if_neg hhandle] at h
  by_cases hsize : size = 0
  · rw [if_pos hsize] at h
    obtain ⟨-, rfl, rfl⟩ := by simpa only [Prod.mk.injEq] using h
    exact .inl ⟨rfl, .refl k⟩
  rw [if_neg hsize] at h
  rcases hstat : k.fstat handle answers.fstat with _ | stSize
  · rw [hstat] at h
    obtain ⟨-, rfl, rfl⟩ := by simpa only [Prod.mk.injEq] using h
    exact .inl ⟨rfl, .refl k⟩
  rw [hstat] at h
  dsimp only at h
  -- The file has its size from here on.
  rcases hextend : (if stSize < (offset + size).toNat then
      k.ftruncate handle (offT (offset + size)) answers.ftruncate else some k) with _ | k₁
  · rw [hextend] at h
    obtain ⟨-, rfl, rfl⟩ := by simpa only [Prod.mk.injEq] using h
    exact .inl ⟨rfl, .refl k⟩
  obtain ⟨hextends, hlong⟩ := extend_spec hstat hextend
  rw [hextend] at h
  dsimp only at h
  rcases hmmap : k₁.mmap size.toNat true handle (offT offset) answers.mmap with
    errno | ⟨address, k₂⟩
  · rw [hmmap] at h
    obtain ⟨-, rfl, rfl⟩ := by simpa only [Prod.mk.injEq] using h
    exact .inl ⟨rfl, hextends⟩
  · rw [hmmap] at h
    obtain ⟨-, rfl, rfl⟩ := by simpa only [Prod.mk.injEq] using h
    exact .inr ⟨k₁, address, hextends, hlong, hmmap, rfl⟩

/-- What a region has is mapped. -/
theorem Accounted.mem_live (h : σ.Accounted) {i : ι} {region : MemoryMappedRegion}
    (hi : σ.objects i = some region) (extent : ℕ × ℕ) (hextent : region.extent = some extent) :
    extent ∈ σ.posix.live := by
  have howner : σ.owner (.inl i) = some extent := by
    rw [owner, hi]
    exact hextent
  exact h.mapped.mem howner

section

variable [DecidableEq ι] {i j : ι}

theorem setObject_setObject (object object' : Option MemoryMappedRegion) (k k' : Posix) :
    (σ.setObject i object k).setObject i object' k' = σ.setObject i object' k' := by
  simp [setObject]

/-- An object changes that has no mapping before or after. -/
theorem Accounted.setObject (h : σ.Accounted) {object : Option MemoryMappedRegion}
    (hobject : object.bind MemoryMappedRegion.extent = σ.owner (.inl i)) :
    Accounted (σ.setObject i object σ.posix) := by
  refine ⟨?_, h.opened, h.posix, h.key⟩
  rw [owner_setObject, hobject, Function.update_eq_self]
  exact h.mapped

theorem Accounted.unmapRegion (h : σ.Accounted) {region : MemoryMappedRegion}
    (hi : σ.objects i = some region) {object : Option MemoryMappedRegion}
    (hobject : object.bind MemoryMappedRegion.extent = none) :
    Accounted (σ.setObject i object (region.unmap σ.posix).2) := by
  obtain ⟨hsound, hlive, hopened, -, -⟩ := unmap_spec h.posix (h.mem_live hi)
  have howner : σ.owner (.inl i) = region.extent := by
    rw [owner, hi]
    rfl
  have hmapped := h.mapped
  rw [hlive, ← howner] at hmapped
  refine ⟨?_, ?_, hsound, h.key⟩
  · rw [owner_setObject, hobject]
    exact hmapped.release
  · show Owned σ.holder (region.unmap σ.posix).2.opened
    rw [hopened]
    exact h.opened

theorem Accounted.mapRegion (h : σ.Accounted) (hi : σ.owner (.inl i) = none) {size : ℕ}
    {fd offset : ℤ} {answer : Except ℕ ℕ} {address : ℕ} {k k' : Posix}
    (hmappings : k.mappings = σ.posix.mappings) (hdescriptors : k.descriptors = σ.posix.descriptors)
    (hmmap : k.mmap size true fd offset answer = .ok (address, k')) :
    Accounted (σ.setObject i (some ⟨address, size⟩) k') := by
  have hk := h.congr hmappings hdescriptors
  obtain ⟨hsound, hlive, hopened⟩ := hk.posix.mmap hmmap
  have haddress := (Posix.mmap_eq_ok hmmap).2.1
  have hextent : MemoryMappedRegion.extent ⟨address, size⟩ = some (address, pageAlign size) :=
    if_neg haddress
  have hmapped : Owned σ.owner k.live := hk.mapped
  refine ⟨?_, ?_, hsound, h.key⟩
  · show Owned (σ.setObject i (some ⟨address, size⟩) k').owner k'.live
    rw [owner_setObject, Option.bind_some, hextent, hlive]
    exact hmapped.acquire hi _
  · show Owned σ.holder k'.opened
    rw [hopened]
    exact hk.opened

theorem Accounted.map (h : σ.Accounted) {region region' : MemoryMappedRegion}
    (hi : σ.objects i = some region) {handle : ℤ} {offset size : UInt64} {answers : Answers}
    {k : Posix} {result : Except String Unit}
    (hmap : region.map handle offset size answers σ.posix = (result, region', k)) :
    Accounted (σ.setObject i (some region') k) := by
  obtain ⟨-, -, -, hextent, -⟩ := unmap_spec h.posix (h.mem_live hi)
  have hempty : Accounted (σ.setObject i (some (region.unmap σ.posix).1)
      (region.unmap σ.posix).2) := h.unmapRegion hi hextent
  have howner : (σ.setObject i (some (region.unmap σ.posix).1)
      (region.unmap σ.posix).2).owner (.inl i) = none := by
    rw [owner_setObject, Function.update_self]
    exact hextent
  rcases mapEmpty_cases hmap with ⟨rfl, hextends⟩ | ⟨k₁, address, hextends, -, hmmap, rfl⟩
  · exact hempty.congr hextends.mappings hextends.descriptors
  · rw [← setObject_setObject (some (region.unmap σ.posix).1) _ (region.unmap σ.posix).2]
    exact hempty.mapRegion howner hextends.mappings hextends.descriptors hmmap

/-- A move keeps the mapping and changes its owner, once the one that the target had is unmapped. -/
theorem Accounted.moveAssign (h : σ.Accounted) {this other : MemoryMappedRegion}
    (hi : σ.objects i = some this) (hj : σ.objects j = some other) :
    Accounted (σ.moveAssign i j this other) := by
  unfold Mappings.moveAssign
  by_cases hij : i = j
  · rw [if_pos hij]
    exact h
  · rw [if_neg hij]
    have hempty : Accounted (σ.setObject i (some .empty) (this.unmap σ.posix).2) :=
      h.unmapRegion hi rfl
    have hne : (Sum.inl i : ι ⊕ ℕ) ≠ .inl j := fun heq => hij (Sum.inl.inj heq)
    refine ⟨?_, hempty.opened, hempty.posix, h.key⟩
    have hmoved := hempty.mapped
    rw [owner_setObject] at hmoved
    have hmove := hmoved.move hne (Function.update_self _ _ _)
    rw [Function.update_of_ne hne.symm, Function.update_idem] at hmove
    have hother : σ.owner (.inl j) = other.extent := by
      rw [owner, hj]
      rfl
    rw [owner_setObject, owner_setObject]
    rw [hother] at hmove
    exact hmove

end

/-! ### Descriptors and the table -/

/-- Closing what has just been opened leaves the descriptors as they were. -/
theorem close_openName {k k₁ k₂ : Posix} {space : Space} {name : String} {flags : OpenFlags}
    {answer : Except ℕ ℤ} {fd : ℤ} (hopen : k.openName space name flags answer = .ok (fd, k₁))
    (hdescriptors : k₂.descriptors = k₁.descriptors) :
    (k₂.close fd).descriptors = k.descriptors := by
  obtain ⟨-, hfind, inode, k', hresolve, rfl⟩ := Posix.openName_eq_ok hopen
  obtain ⟨-, hsame⟩ := Posix.resolve_eq_ok hresolve
  show k₂.descriptors.filter _ = _
  rw [hdescriptors, List.filter_cons_of_neg (by simp), hsame, List.filter_eq_self]
  intro file hfile
  have hne := List.find?_eq_none.mp hfind file hfile
  simpa using hne

/-- A call that fails after `open` and closes again. -/
theorem Accounted.openClose (h : σ.Accounted) {k k₁ : Posix} {space : Space} {name : String}
    {flags : OpenFlags} {answer : Except ℕ ℤ} {fd : ℤ}
    (hopen : σ.posix.openName space name flags answer = .ok (fd, k₁))
    (hmappings : k.mappings = k₁.mappings) (hdescriptors : k.descriptors = k₁.descriptors) :
    Accounted { σ with posix := k.close fd } := by
  obtain ⟨-, -, inode, k', hresolve, rfl⟩ := Posix.openName_eq_ok hopen
  have hsame := (Posix.resolve_eq_ok hresolve).1
  exact h.congr (hmappings.trans hsame) (close_openName hopen hdescriptors)

/-- No entry of the table is at an address that is free. -/
theorem Accounted.not_entered (h : σ.Accounted) {address size : ℕ} (hsize : size ≠ 0)
    (hfree : σ.posix.Free address (pageAlign size)) : σ.mappedFiles address = none := by
  rcases hentry : σ.mappedFiles address with _ | ⟨fd, address', size'⟩
  · rfl
  · exfalso
    obtain rfl := h.key _ _ _ _ hentry
    have howner : σ.owner (.inr address') = some (address', pageAlign size') := by
      rw [owner, hentry]
      rfl
    obtain ⟨v, hv, heq⟩ := List.mem_map.mp (Multiset.mem_coe.mp (h.mapped.mem howner))
    have haddress : v.address = address' := (Prod.mk.inj heq).1
    have hlength := h.posix.nonempty v hv
    have hle := Posix.le_pageAlign size
    rcases hfree v hv with hlt | hle
    · omega
    · omega

theorem Accounted.openFile (h : σ.Accounted) {k : Posix} {path : String} {flags : OpenFlags}
    {answer : Except ℕ ℤ} {fd : ℤ}
    (hopen : σ.posix.openName .file path flags answer = .ok (fd, k)) :
    Accounted { σ with posix := k, handles := Function.update σ.handles fd true } := by
  obtain ⟨hsound, hlive, hopened⟩ := h.posix.openName hopen
  refine ⟨?_, ?_, hsound, h.key⟩
  · show Owned σ.owner k.live
    rw [hlive]
    exact h.mapped
  · rw [holder_handles, if_pos rfl, hopened]
    apply h.opened.acquire
    rw [holder]
    rcases hhandle : σ.handles fd with _ | _
    · rfl
    · have hholder : σ.holder (.inl fd) = some fd := by
        rw [holder, hhandle]
        rfl
      have hnotMem := Posix.notMem_opened (Posix.openName_eq_ok hopen).2.1
      exact absurd (h.opened.mem hholder) hnotMem

theorem Accounted.closeFile (h : σ.Accounted) {fd : ℤ} (hfd : σ.handles fd = true) :
    Accounted { σ with
      posix := σ.posix.close fd
      handles := Function.update σ.handles fd false } := by
  have hholder : σ.holder (.inl fd) = some fd := by
    rw [holder, hfd]
    rfl
  obtain ⟨hsound, hlive, hopened⟩ := h.posix.close (h.opened.mem hholder)
  refine ⟨?_, ?_, hsound, h.key⟩
  · show Owned σ.owner (σ.posix.close fd).live
    rw [hlive]
    exact h.mapped
  · rw [holder_handles]
    apply Owned.release
    rw [hholder, single_some, Multiset.singleton_add, ← hopened]
    exact h.opened

theorem accounted_start (names : Space → String → Option ℕ) (size : ℕ → ℕ) (nextInode : ℕ) :
    Accounted (start names size nextInode : Mappings ι) where
  mapped := by
    have howner : owner (start names size nextInode : Mappings ι) = fun _ => none := by
      funext o
      rcases o with i | p
      · rfl
      · rfl
    rw [howner]
    exact .empty
  opened := by
    have hholder : holder (start names size nextInode : Mappings ι) = fun _ => none := by
      funext o
      rcases o with fd | p
      · rfl
      · rfl
    rw [hholder]
    exact .empty
  posix := ⟨.nil, fun _ hv => (List.not_mem_nil hv).elim, List.nodup_nil,
    fun _ hfd => (List.not_mem_nil hfd).elim⟩
  key := by
    rintro p fd address size' ⟨⟩

section

variable [DecidableEq ι]

/-- A new mapping and its descriptor go to an entry. -/
theorem Accounted.enter (h : σ.Accounted) {k₁ k₂ k₃ : Posix} {space : Space} {name : String}
    {flags : OpenFlags} {answers : Answers} {fd offset : ℤ} {size address : ℕ} {shared : Bool}
    (hopen : σ.posix.openName space name flags answers.openFile = .ok (fd, k₁))
    (hmappings : k₂.mappings = k₁.mappings) (hdescriptors : k₂.descriptors = k₁.descriptors)
    (hmmap : k₂.mmap size shared fd offset answers.mmap = .ok (address, k₃)) :
    Accounted (σ.enter k₃ fd address size) := by
  obtain ⟨hsound₁, hlive₁, hopened₁⟩ := h.posix.openName hopen
  obtain ⟨hsound₃, hlive₃, hopened₃⟩ := (hsound₁.congr hmappings hdescriptors).mmap hmmap
  obtain ⟨hsize, -, hfree, -⟩ := Posix.mmap_eq_ok hmmap
  obtain ⟨-, -, inode, k', hresolve, heq⟩ := Posix.openName_eq_ok hopen
  have hnone : σ.mappedFiles address = none := by
    apply h.not_entered hsize
    intro v hv
    apply hfree
    rw [hmappings, heq]
    show v ∈ k'.mappings
    rw [(Posix.resolve_eq_ok hresolve).1]
    exact hv
  have hlive : k₃.live = (address, pageAlign size) ::ₘ σ.posix.live := by
    rw [hlive₃, ← hlive₁, Posix.live, Posix.live, hmappings]
  have hopened : k₃.opened = fd ::ₘ σ.posix.opened := by
    rw [hopened₃, ← hopened₁, Posix.opened, Posix.opened, hdescriptors]
  refine ⟨?_, ?_, hsound₃, ?_⟩
  · show Owned (owner { σ with
      posix := k₃
      mappedFiles := Function.update σ.mappedFiles address (some (fd, address, size)) }) k₃.live
    rw [owner_mappedFiles, hlive]
    apply h.mapped.acquire
    rw [owner, hnone]
    rfl
  · show Owned (holder { σ with
      posix := k₃
      mappedFiles := Function.update σ.mappedFiles address (some (fd, address, size)) }) k₃.opened
    rw [holder_mappedFiles, hopened]
    apply h.opened.acquire
    rw [holder, hnone]
    rfl
  · intro p fd' address' size' hentry
    simp only [Mappings.enter] at hentry
    by_cases hp : p = address
    · subst hp
      rw [Function.update_self] at hentry
      obtain ⟨-, rfl, -⟩ := by simpa only [Option.some.injEq, Prod.mk.injEq] using hentry
      rfl
    · rw [Function.update_of_ne hp] at hentry
      exact h.key p fd' address' size' hentry

/-- `unmap_file` gives back the mapping and the descriptor of one entry. -/
theorem Accounted.unmapFile (h : σ.Accounted) (mappedPtr : ℕ) :
    Accounted (σ.unmapFile mappedPtr) := by
  unfold Mappings.unmapFile
  rcases hentry : σ.mappedFiles mappedPtr with _ | ⟨fd, address, size⟩
  · exact h
  · have howner : σ.owner (.inr mappedPtr) = some (address, pageAlign size) := by
      rw [owner, hentry]
      rfl
    have hholder : σ.holder (.inr mappedPtr) = some fd := by
      rw [holder, hentry]
      rfl
    have hfd := h.opened.mem hholder
    have hvalid : fd ≠ -1 := by
      have hnonneg := h.posix.nonneg fd hfd
      omega
    obtain ⟨hsound, hlive, -⟩ := h.posix.munmap (h.mapped.mem howner)
    obtain ⟨hsound', hlive', hopened'⟩ := hsound.close hfd
    have hmapped := h.mapped
    rw [hlive, ← hlive', ← Multiset.singleton_add, ← single_some, ← howner] at hmapped
    have hopened : Owned σ.holder (single (σ.holder (.inr mappedPtr)) +
        ((σ.posix.munmap address size).close fd).opened) := by
      rw [hholder, single_some, Multiset.singleton_add, ← hopened']
      exact h.opened
    dsimp only
    rw [if_neg hvalid]
    refine ⟨?_, ?_, hsound', ?_⟩
    · rw [owner_mappedFiles]
      exact hmapped.release
    · rw [holder_mappedFiles]
      exact hopened.release
    · intro p fd' address' size' hentry'
      dsimp only at hentry'
      by_cases hp : p = mappedPtr
      · subst hp
        rw [Function.update_self] at hentry'
        cases hentry'
      · rw [Function.update_of_ne hp] at hentry'
        exact h.key p fd' address' size' hentry'

theorem Accounted.mapFile (h : σ.Accounted) (path : String) (answers : Answers) :
    Accounted (σ.mapFile path answers).2 := by
  unfold Mappings.mapFile
  rcases hopen : σ.posix.openName .file path ⟨.read, false, false, false⟩ answers.openFile with
    errno | ⟨fd, k⟩
  · exact h
  · dsimp only
    rcases k.fstat fd answers.fstat with _ | size
    · exact h.openClose hopen rfl rfl
    · dsimp only
      split_ifs
      · exact h.openClose hopen rfl rfl
      · rcases hmmap : k.mmap size false fd 0 answers.mmap with errno | ⟨address, k'⟩
        · exact h.openClose hopen rfl rfl
        · exact h.enter hopen rfl rfl hmmap

theorem Accounted.mapOpened (h : σ.Accounted) {k k₁ : Posix} {name : String} {flags : OpenFlags}
    {answers : Answers} {fd : ℤ}
    (hopen : σ.posix.openName .sharedMemory name flags answers.openFile = .ok (fd, k₁))
    (hmappings : k.mappings = k₁.mappings) (hdescriptors : k.descriptors = k₁.descriptors)
    (size : UInt64) : Accounted (σ.mapOpened name size fd answers k).2 := by
  unfold Mappings.mapOpened
  rcases hmmap : k.mmap size.toNat true fd 0 answers.mmap with errno | ⟨address, k'⟩
  · exact h.openClose hopen hmappings hdescriptors
  · exact h.enter hopen hmappings hdescriptors hmmap

theorem Accounted.mapSharedMemory (h : σ.Accounted) (name : String) (size : UInt64)
    (isOwner : Bool)
    (answers : Answers) : Accounted (σ.mapSharedMemory name size isOwner answers).2 := by
  unfold Mappings.mapSharedMemory
  cases isOwner with
  | true =>
    rw [if_pos rfl]
    rcases hopen : σ.posix.openName .sharedMemory name ⟨.readWrite, true, false, true⟩
      answers.openFile with errno | ⟨fd, k⟩
    · exact h
    · dsimp only
      rcases htruncate : k.ftruncate fd (offT size) answers.ftruncate with _ | k'
      · exact (h.openClose hopen rfl rfl).congr rfl rfl
      · obtain ⟨-, file, -, hk'⟩ := Posix.ftruncate_eq_some htruncate
        have hmappings : k'.mappings = k.mappings := by rw [hk']
        have hdescriptors : k'.descriptors = k.descriptors := by rw [hk']
        exact h.mapOpened hopen hmappings hdescriptors size
  | false =>
    rw [if_neg Bool.false_ne_true]
    rcases hopen : σ.posix.openName .sharedMemory name ⟨.readWrite, false, false, false⟩
      answers.openFile with errno | ⟨fd, k⟩
    · exact h
    · exact h.mapOpened hopen rfl rfl size

/-! ### Runs -/

/-- What a step does, and where it may happen. -/
def Effect (σ σ' : Mappings ι) : Event ι → Prop
  | .open path access mode answers => σ' = σ ∨
      ∃ fd k, σ.posix.openName .file path (openFlags access mode) answers.openFile = .ok (fd, k) ∧
        σ' = { σ with posix := k, handles := Function.update σ.handles fd true }
  | .close handle => σ' = σ ∨ σ.handles handle = true ∧
      σ' = { σ with
        posix := σ.posix.close handle
        handles := Function.update σ.handles handle false }
  | .construct i => σ.objects i = none ∧ σ' = σ.setObject i (some .empty) σ.posix
  | .moveConstruct i j => ∃ other, σ.objects i = none ∧ σ.objects j = some other ∧
      σ' = (σ.setObject i (some .empty) σ.posix).moveAssign i j .empty other
  | .assign i j => ∃ this other, σ.objects i = some this ∧ σ.objects j = some other ∧
      σ' = σ.moveAssign i j this other
  | .destroy i => ∃ region, σ.objects i = some region ∧
      σ' = σ.setObject i none (region.unmap σ.posix).2
  | .map i handle offset size answers => ∃ region result region' k, σ.objects i = some region ∧
      region.map handle offset size answers σ.posix = (result, region', k) ∧
      σ' = σ.setObject i (some region') k
  | .unmap i => ∃ region, σ.objects i = some region ∧
      σ' = σ.setObject i (some (region.unmap σ.posix).1) (region.unmap σ.posix).2
  | .mapFile path answers => σ' = (σ.mapFile path answers).2
  | .mapSharedMemory name size isOwner answers =>
      σ' = (σ.mapSharedMemory name size isOwner answers).2
  | .unmapFile mappedPtr => σ' = σ.unmapFile mappedPtr
  | .unlinkSharedMemory name => σ' = σ ∨ σ' = { σ with posix := σ.posix.shmUnlink name }

theorem step_effect {event : Event ι} (hstep : σ.step event = some σ') : Effect σ σ' event := by
  cases event with
  | «open» path access mode answers =>
    unfold Mappings.step nativeOpenFile at hstep
    rcases hopen : σ.posix.openName .file path (openFlags access mode) answers.openFile with
      errno | ⟨fd, k⟩
    · simp only [hopen] at hstep
      exact .inl (Option.some.inj hstep).symm
    · simp only [hopen] at hstep
      exact .inr ⟨fd, k, hopen, (Option.some.inj hstep).symm⟩
  | close handle =>
    unfold Mappings.step nativeCloseFile at hstep
    dsimp only at hstep
    split_ifs at hstep with hinvalid hhandle
    · exact .inl (Option.some.inj hstep).symm
    · exact .inr ⟨hhandle, (Option.some.inj hstep).symm⟩
  | construct i =>
    unfold Mappings.step at hstep
    rcases hi : σ.objects i with _ | region
    · simp only [hi] at hstep
      exact ⟨hi, (Option.some.inj hstep).symm⟩
    · simp only [hi] at hstep
      cases hstep
  | moveConstruct i j =>
    unfold Mappings.step at hstep
    rcases hi : σ.objects i with _ | this
    · rcases hj : σ.objects j with _ | other
      · simp only [hi, hj] at hstep
        cases hstep
      · simp only [hi, hj] at hstep
        exact ⟨other, hi, hj, (Option.some.inj hstep).symm⟩
    · simp only [hi] at hstep
      cases hstep
  | assign i j =>
    unfold Mappings.step at hstep
    rcases hi : σ.objects i with _ | this
    · simp only [hi] at hstep
      cases hstep
    · rcases hj : σ.objects j with _ | other
      · simp only [hi, hj] at hstep
        cases hstep
      · simp only [hi, hj] at hstep
        exact ⟨this, other, hi, hj, (Option.some.inj hstep).symm⟩
  | destroy i =>
    unfold Mappings.step at hstep
    rcases hi : σ.objects i with _ | region
    · simp only [hi] at hstep
      cases hstep
    · simp only [hi] at hstep
      exact ⟨region, hi, (Option.some.inj hstep).symm⟩
  | map i handle offset size answers =>
    unfold Mappings.step at hstep
    rcases hi : σ.objects i with _ | region
    · simp only [hi] at hstep
      cases hstep
    · simp only [hi] at hstep
      exact ⟨region, _, _, _, hi, rfl, (Option.some.inj hstep).symm⟩
  | unmap i =>
    unfold Mappings.step at hstep
    rcases hi : σ.objects i with _ | region
    · simp only [hi] at hstep
      cases hstep
    · simp only [hi] at hstep
      exact ⟨region, hi, (Option.some.inj hstep).symm⟩
  | mapFile path answers => exact (Option.some.inj hstep).symm
  | mapSharedMemory name size isOwner answers => exact (Option.some.inj hstep).symm
  | unmapFile mappedPtr => exact (Option.some.inj hstep).symm
  | unlinkSharedMemory name =>
    have heq : σ' = σ.unlinkSharedMemory name := (Option.some.inj hstep).symm
    unfold Mappings.unlinkSharedMemory at heq
    split_ifs at heq
    · exact .inl heq
    · exact .inr heq

theorem Accounted.construct (h : σ.Accounted) {i : ι} (hi : σ.objects i = none) :
    Accounted (σ.setObject i (some .empty) σ.posix) := by
  apply h.setObject
  rw [owner, hi]
  rfl

/-- The object that a move constructor takes from is another one. -/
theorem objects_setObject_of_some {i j : ι} {object : Option MemoryMappedRegion} {k : Posix}
    {other : MemoryMappedRegion} (hi : σ.objects i = none) (hj : σ.objects j = some other) :
    (σ.setObject i object k).objects j = some other := by
  have hne : j ≠ i := by
    rintro rfl
    rw [hi] at hj
    cases hj
  exact (Function.update_of_ne hne _ _).trans hj

theorem Accounted.step (h : σ.Accounted) {event : Event ι} (hstep : σ.step event = some σ') :
    σ'.Accounted := by
  have heffect := step_effect hstep
  cases event with
  | «open» path access mode answers =>
    rcases heffect with rfl | ⟨fd, k, hopen, rfl⟩
    · exact h
    · exact h.openFile hopen
  | close handle =>
    rcases heffect with rfl | ⟨hhandle, rfl⟩
    · exact h
    · exact h.closeFile hhandle
  | construct i =>
    obtain ⟨hi, rfl⟩ := heffect
    exact h.construct hi
  | moveConstruct i j =>
    obtain ⟨other, hi, hj, rfl⟩ := heffect
    exact (h.construct hi).moveAssign (Function.update_self _ _ _)
      (objects_setObject_of_some hi hj)
  | assign i j =>
    obtain ⟨this, other, hi, hj, rfl⟩ := heffect
    exact h.moveAssign hi hj
  | destroy i =>
    obtain ⟨region, hi, rfl⟩ := heffect
    exact h.unmapRegion hi rfl
  | map i handle offset size answers =>
    obtain ⟨region, result, region', k, hi, hmap, rfl⟩ := heffect
    exact h.map hi hmap
  | unmap i =>
    obtain ⟨region, hi, rfl⟩ := heffect
    exact h.unmapRegion hi (unmap_spec h.posix (h.mem_live hi)).2.2.2.1
  | mapFile path answers =>
    obtain rfl := heffect
    exact h.mapFile path answers
  | mapSharedMemory name size isOwner answers =>
    obtain rfl := heffect
    exact h.mapSharedMemory name size isOwner answers
  | unmapFile mappedPtr =>
    obtain rfl := heffect
    exact h.unmapFile mappedPtr
  | unlinkSharedMemory name =>
    rcases heffect with rfl | rfl
    · exact h
    · exact h.congr rfl rfl

/-- Every mapping and every descriptor has one owner, and what nobody owns is gone. -/
structure Exact (σ : Mappings ι) : Prop where
  mapped : Owned σ.owner σ.posix.live
  opened : Owned σ.holder σ.posix.opened
  apart : σ.posix.mappings.Pairwise Vma.Apart
  owner_unique : ∀ o o' extent, σ.owner o = some extent → σ.owner o' = some extent → o = o'
  holder_unique : ∀ o o' fd, σ.holder o = some fd → σ.holder o' = some fd → o = o'
  unmapped : (∀ o, σ.owner o = none) → σ.posix.mappings = []
  closed : (∀ o, σ.holder o = none) → σ.posix.descriptors = []

theorem Accounted.exact (h : σ.Accounted) : σ.Exact where
  mapped := h.mapped
  opened := h.opened
  apart := h.posix.apart
  owner_unique _ _ _ ho ho' := h.mapped.unique h.posix.live_nodup ho ho'
  holder_unique _ _ _ ho ho' := h.opened.unique h.posix.nodup ho ho'
  unmapped hnone := List.map_eq_nil_iff.mp (Multiset.coe_eq_zero _ |>.mp (h.mapped.eq_zero hnone))
  closed hnone := List.map_eq_nil_iff.mp (Multiset.coe_eq_zero _ |>.mp (h.opened.eq_zero hnone))

/-- **Every mapping and every descriptor has one owner**, in every state of every run. -/
theorem mappings_accounted {names : Space → String → Option ℕ} {size : ℕ → ℕ} {nextInode : ℕ}
    {events : List (Event ι)}
    (hrun : EventRun.run step (start names size nextInode) events = some σ) : σ.Exact := by
  have h : σ.Accounted :=
    EventRun.invariant (fun _ _ _ h hstep => Accounted.step h hstep) hrun
      (accounted_start names size nextInode)
  exact h.exact

end

/-- Region `1` takes the mapping of region `0` over, after its own, and outlives the descriptor; a
file is mapped and unmapped meanwhile. -/
def handover : List (Event (Fin 2)) :=
  [.open "a" .readWrite .createNew ⟨.ok 3, true, true, .error 12⟩, .construct 0, .construct 1,
    .map 0 3 0 5000 ⟨.error 24, true, true, .ok 65536⟩,
    .map 1 3 8192 10 ⟨.error 24, true, true, .ok 131072⟩, .close 3,
    .mapFile "a" ⟨.ok 3, true, true, .ok 262144⟩, .assign 1 0, .unmapFile 262144, .destroy 0]

theorem mappings_accounted_handover :
    ∃ σ, EventRun.run step (start (fun _ _ => none) (fun _ => 0) 0) handover = some σ ∧
      σ.posix.mappings = [⟨65536, 8192, 0, 0⟩] ∧ σ.Exact := by
  have hmappings : (EventRun.run step (start (fun _ _ => none) (fun _ => 0) 0) handover).map
      (fun σ => σ.posix.mappings) = some [⟨65536, 8192, 0, 0⟩] := by decide +kernel
  obtain ⟨σ, hrun, hσ⟩ := Option.map_eq_some_iff.mp hmappings
  exact ⟨σ, hrun, hσ, mappings_accounted hrun⟩

end Mappings

end IACore
