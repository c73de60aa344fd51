import IACore.FileOps.Equiv.Mapping

/-!
# Every mapped byte is a byte of its file

An access behind the end of the file is a fault, so `MemoryMappedRegion::map` extends the file first
and `map_file` maps no more than there is.  A file may shrink afterwards, but only through
`native_open_file` in a mode that truncates, and through `map_shared_memory` as an owner; and a
consumer of shared memory is not told how much there is.  Where no event of a run does one of these
to a file that is mapped (`Careful`), all that is mapped stays readable and writable
(`mapped_bytes_in_file`).
-/

namespace IACore

open FileOps

namespace Posix

variable {k k' : Posix}

/-- New files get new numbers. -/
structure Fresh (k : Posix) : Prop where
  names : ∀ space name inode, k.names space name = some inode → inode < k.nextInode
  descriptors : ∀ file ∈ k.descriptors, file.inode < k.nextInode
  mappings : ∀ v ∈ k.mappings, v.inode < k.nextInode

theorem Fresh.of_find (h : k.Fresh) {fd : ℤ} {file : OpenFile} (hfile : k.find fd = some file) :
    file.inode < k.nextInode := h.descriptors file (List.mem_of_find?_eq_some hfile)

theorem Fresh.extends (h : k.Fresh) (hextends : k.Extends k') : k'.Fresh := by
  constructor
  · rw [hextends.names, hextends.nextInode]
    exact h.names
  · rw [hextends.descriptors, hextends.nextInode]
    exact h.descriptors
  · rw [hextends.mappings, hextends.nextInode]
    exact h.mappings

/-- The file that is opened, after its truncation if it is truncated, is not mapped. -/
def Unmapped (k : Posix) (space : Space) (name : String) : Prop :=
  ∀ inode, k.names space name = some inode → ∀ v ∈ k.mappings, v.inode ≠ inode

/-- `open` leaves the mapped files as long as they are, if it does not truncate one of them. -/
theorem Fresh.resolve (h : k.Fresh) {space : Space} {name : String} {flags : OpenFlags}
    {inode : ℕ} (htrunc : flags.trunc = true → k.Unmapped space name)
    (hresolve : k.resolve space name flags = .ok (inode, k')) :
    k'.Fresh ∧ inode < k'.nextInode ∧ (∀ v ∈ k.mappings, k'.size v.inode = k.size v.inode) ∧
      (k.Unmapped space name → ∀ v ∈ k.mappings, v.inode ≠ inode) ∧
      (flags.trunc = false → ∀ inode', k.names space name = some inode' →
        inode' = inode ∧ k'.size inode = k.size inode) := by
  unfold Posix.resolve at hresolve
  rcases hname : k.names space name with _ | inode'
  · simp only [hname] at hresolve
    split_ifs at hresolve
    obtain ⟨rfl, rfl⟩ := Prod.mk.inj (Except.ok.inj hresolve)
    have hne : ∀ v ∈ k.mappings, v.inode ≠ k.nextInode := fun v hv => (h.mappings v hv).ne
    refine ⟨⟨?_, ?_, ?_⟩, Nat.lt_succ_self _, ?_, fun _ => hne, fun _ inode' heq => by cases heq⟩
    · intro space' name' inode' hname'
      show inode' < k.nextInode + 1
      dsimp only at hname'
      by_cases hspace : space' = space
      · subst hspace
        rw [Function.update_self] at hname'
        by_cases hname'' : name' = name
        · subst hname''
          rw [Function.update_self] at hname'
          obtain rfl := Option.some.inj hname'
          exact Nat.lt_succ_self _
        · rw [Function.update_of_ne hname''] at hname'
          exact (h.names _ _ _ hname').trans (Nat.lt_succ_self _)
      · rw [Function.update_of_ne hspace] at hname'
        exact (h.names _ _ _ hname').trans (Nat.lt_succ_self _)
    · exact fun file hfile => (h.descriptors file hfile).trans (Nat.lt_succ_self _)
    · exact fun v hv => (h.mappings v hv).trans (Nat.lt_succ_self _)
    · exact fun v hv => Function.update_of_ne (hne v hv) _ _
  · simp only [hname] at hresolve
    by_cases hexcl : flags.creat ∧ flags.excl
    · rw [if_pos hexcl] at hresolve
      cases hresolve
    rw [if_neg hexcl] at hresolve
    obtain ⟨rfl, rfl⟩ := Prod.mk.inj (Except.ok.inj hresolve)
    refine ⟨⟨h.names, h.descriptors, h.mappings⟩, h.names _ _ _ hname, ?_,
      fun hunmapped => hunmapped _ hname, ?_⟩
    · intro v hv
      dsimp only
      split_ifs with hflag
      · exact Function.update_of_ne (htrunc hflag _ hname v hv) _ _
      · rfl
    · intro hflag inode'' heq
      refine ⟨(Option.some.inj heq).symm, ?_⟩
      dsimp only
      rw [if_neg (by rw [hflag]; exact Bool.false_ne_true)]

/-- The file that `open` has opened. -/
theorem Fresh.openName (h : k.Fresh) {space : Space} {name : String} {flags : OpenFlags}
    {answer : Except ℕ ℤ} {fd : ℤ} (htrunc : flags.trunc = true → k.Unmapped space name)
    (hopen : k.openName space name flags answer = .ok (fd, k')) :
    k'.Fresh ∧ k'.mappings = k.mappings ∧ (∀ v ∈ k.mappings, k'.size v.inode = k.size v.inode) ∧
      ∃ file, k'.find fd = some file ∧
        (k.Unmapped space name → ∀ v ∈ k.mappings, v.inode ≠ file.inode) ∧
        (flags.trunc = false → ∀ inode, k.names space name = some inode →
          inode = file.inode ∧ k'.size inode = k.size inode) := by
  obtain ⟨-, -, inode, k₁, hresolve, rfl⟩ := openName_eq_ok hopen
  obtain ⟨hfresh, hinode, hsize, hunmapped, hkept⟩ := h.resolve htrunc hresolve
  refine ⟨⟨hfresh.names, ?_, hfresh.mappings⟩, (resolve_eq_ok hresolve).1, hsize,
    ⟨fd, inode, flags.access⟩, List.find?_cons_of_pos (by simp), hunmapped, ?_⟩
  · rintro file (_ | ⟨_, hfile⟩)
    · exact hinode
    · exact hfresh.descriptors file hfile
  · intro hflag inode' hname
    obtain ⟨rfl, heq⟩ := hkept hflag inode' hname
    exact ⟨rfl, heq⟩

theorem Fresh.close (h : k.Fresh) (fd : ℤ) : (k.close fd).Fresh :=
  ⟨h.names, fun file hfile => h.descriptors file (List.mem_of_mem_filter hfile), h.mappings⟩

theorem Fresh.shmUnlink (h : k.Fresh) (name : String) : (k.shmUnlink name).Fresh := by
  refine ⟨?_, h.descriptors, h.mappings⟩
  intro space name' inode hname
  unfold Posix.shmUnlink at hname
  dsimp only at hname
  by_cases hspace : space = .sharedMemory
  · subst hspace
    rw [Function.update_self] at hname
    by_cases hname' : name' = name
    · subst hname'
      rw [Function.update_self] at hname
      cases hname
    · rw [Function.update_of_ne hname'] at hname
      exact h.names _ _ _ hname
  · rw [Function.update_of_ne hspace] at hname
    exact h.names _ _ _ hname

theorem Fresh.sublist (h : k.Fresh) (hsublist : k'.mappings.Sublist k.mappings)
    (hnames : k'.names = k.names) (hdescriptors : k'.descriptors = k.descriptors)
    (hnextInode : k'.nextInode = k.nextInode) : k'.Fresh := by
  constructor
  · rw [hnames, hnextInode]
    exact h.names
  · rw [hdescriptors, hnextInode]
    exact h.descriptors
  · rw [hnextInode]
    exact fun v hv => h.mappings v (hsublist.subset hv)

theorem Fresh.mmap (h : k.Fresh) {size : ℕ} {shared : Bool} {fd offset : ℤ}
    {answer : Except ℕ ℕ} {address : ℕ}
    (hmmap : k.mmap size shared fd offset answer = .ok (address, k')) : k'.Fresh := by
  obtain ⟨-, -, -, -, file, hfile, -, -, rfl⟩ := mmap_eq_ok hmmap
  refine ⟨h.names, h.descriptors, ?_⟩
  rintro v (_ | ⟨_, hv⟩)
  · exact h.of_find hfile
  · exact h.mappings v hv

end Posix

namespace Mappings

variable {ι : Type*} {σ σ' : Mappings ι}

/-- The addresses that a region or an entry of the table has, to the byte. -/
def held (σ : Mappings ι) : ι ⊕ ℕ → Option (ℕ × ℕ)
  | .inl i => (σ.objects i).bind fun region =>
      if region.ptr = 0 then none else some (region.ptr, region.size)
  | .inr p => (σ.mappedFiles p).map Prod.snd

/-- Every byte that a region or an entry has is a byte of its file. -/
def Backed (σ : Mappings ι) : Prop :=
  ∀ o address size, σ.held o = some (address, size) →
    ∀ v ∈ σ.posix.mappings, v.address = address → v.offset + size ≤ σ.posix.size v.inode

/-- What an event must not do: truncate a file that is mapped, or map more of another's shared
memory than there is. -/
def Careful (σ : Mappings ι) : Event ι → Prop
  | .open path access mode _ =>
    (openFlags access mode).trunc = true → σ.posix.Unmapped .file path
  | .mapSharedMemory name size isOwner _ =>
    if isOwner then σ.posix.Unmapped .sharedMemory name
    else ∀ inode, σ.posix.names .sharedMemory name = some inode →
      size.toNat ≤ σ.posix.size inode
  | _ => True

theorem owner_eq_map (o : ι ⊕ ℕ) :
    σ.owner o = (σ.held o).map fun extent => (extent.1, pageAlign extent.2) := by
  rcases o with i | p
  · rcases hi : σ.objects i with _ | region
    · simp only [owner, held, hi, Option.bind_none, Option.map_none]
    · simp only [owner, held, hi, Option.bind_some, MemoryMappedRegion.extent]
      split_ifs
      · rfl
      · rfl
  · unfold owner held
    rw [Option.map_map]
    rfl

/-- What is held is the start of a mapping. -/
theorem Accounted.exists_vma (h : σ.Accounted) {o : ι ⊕ ℕ} {address size : ℕ}
    (hheld : σ.held o = some (address, size)) : ∃ v ∈ σ.posix.mappings, v.address = address := by
  have howner : σ.owner o = some (address, pageAlign size) := by
    rw [owner_eq_map, hheld]
    rfl
  obtain ⟨v, hv, heq⟩ := List.mem_map.mp (Multiset.mem_coe.mp (h.mapped.mem howner))
  exact ⟨v, hv, (Prod.mk.inj heq).1⟩

/-- Extents change hands, mappings go, and no mapped file becomes shorter. -/
theorem Backed.transfer (h : σ.Backed)
    (hheld : ∀ o extent, σ'.held o = some extent → ∃ o', σ.held o' = some extent)
    (hmappings : ∀ v ∈ σ'.posix.mappings, v ∈ σ.posix.mappings)
    (hsize : ∀ v ∈ σ.posix.mappings, σ.posix.size v.inode ≤ σ'.posix.size v.inode) :
    σ'.Backed := by
  intro o address size ho v hv haddress
  obtain ⟨o', ho'⟩ := hheld o (address, size) ho
  exact (h o' address size ho' v (hmappings v hv) haddress).trans (hsize v (hmappings v hv))

/-- A mapping comes, and it is backed. -/
theorem Backed.acquire (h : σ.Backed) (haccounted : σ.Accounted) (v₀ : Vma) (size₀ : ℕ)
    (hfree : ∀ v ∈ σ.posix.mappings, v.address ≠ v₀.address)
    (hheld : ∀ o extent, σ'.held o = some extent →
      extent = (v₀.address, size₀) ∨ ∃ o', σ.held o' = some extent)
    (hmappings : ∀ v ∈ σ'.posix.mappings, v = v₀ ∨ v ∈ σ.posix.mappings)
    (hsize : ∀ v ∈ σ.posix.mappings, σ.posix.size v.inode ≤ σ'.posix.size v.inode)
    (hbacked : v₀.offset + size₀ ≤ σ'.posix.size v₀.inode) : σ'.Backed := by
  intro o address size ho v hv haddress
  rcases hheld o (address, size) ho with heq | ⟨o', ho'⟩
  · obtain ⟨rfl, rfl⟩ := Prod.mk.inj heq
    rcases hmappings v hv with rfl | hold
    · exact hbacked
    · exact absurd haddress (hfree v hold)
  · rcases hmappings v hv with rfl | hold
    · obtain ⟨w, hw, hw'⟩ := haccounted.exists_vma ho'
      exact absurd (hw'.trans haddress.symm) (hfree w hw)
    · exact (h o' address size ho' v hold haddress).trans (hsize v hold)

/-- A free address is not that of a mapping. -/
theorem Accounted.address_ne (h : σ.Accounted) {address size : ℕ} (hsize : size ≠ 0)
    (hfree : σ.posix.Free address (pageAlign size)) :
    ∀ v ∈ σ.posix.mappings, v.address ≠ address := by
  intro v hv heq
  have hlength := h.posix.nonempty v hv
  have hle := Posix.le_pageAlign size
  rcases hfree v hv with hlt | hle'
  · omega
  · omega

/-! ### What the functions hold -/

theorem held_enter {k : Posix} {fd : ℤ} {address size : ℕ} {o : ι ⊕ ℕ} {extent : ℕ × ℕ}
    (h : (σ.enter k fd address size).held o = some extent) :
    extent = (address, size) ∨ ∃ o', σ.held o' = some extent := by
  rcases o with i | p
  · exact .inr ⟨.inl i, h⟩
  · by_cases hp : p = address
    · subst hp
      simp only [held, Mappings.enter, Function.update_self] at h
      exact .inl (Option.some.inj h).symm
    · simp only [held, Mappings.enter, Function.update_of_ne hp] at h
      exact .inr ⟨.inr p, h⟩

theorem held_unmapFile {mappedPtr : ℕ} {o : ι ⊕ ℕ} {extent : ℕ × ℕ}
    (h : (σ.unmapFile mappedPtr).held o = some extent) : ∃ o', σ.held o' = some extent := by
  unfold Mappings.unmapFile at h
  rcases hentry : σ.mappedFiles mappedPtr with _ | ⟨fd, address, size⟩
  · rw [hentry] at h
    exact ⟨o, h⟩
  · rw [hentry] at h
    rcases o with i | p
    · exact ⟨.inl i, h⟩
    · by_cases hp : p = mappedPtr
      · subst hp
        simp only [held, Function.update_self] at h
        cases h
      · simp only [held, Function.update_of_ne hp] at h
        exact ⟨.inr p, h⟩

/-- Everything that holds in each state of a careful run. -/
structure Sturdy (σ : Mappings ι) : Prop where
  accounted : σ.Accounted
  fresh : σ.posix.Fresh
  backed : σ.Backed

/-- A file is opened. -/
theorem Sturdy.openFile (h : σ.Sturdy) {k : Posix} {path : String} {flags : OpenFlags}
    {answer : Except ℕ ℤ} {fd : ℤ} (htrunc : flags.trunc = true → σ.posix.Unmapped .file path)
    (hopen : σ.posix.openName .file path flags answer = .ok (fd, k)) :
    Sturdy { σ with posix := k, handles := Function.update σ.handles fd true } := by
  obtain ⟨hfresh, hmappings, hsize, -⟩ := h.fresh.openName htrunc hopen
  refine ⟨h.accounted.openFile hopen, hfresh, h.backed.transfer (fun o _ ho => ⟨o, ho⟩) ?_ ?_⟩
  · show ∀ v ∈ k.mappings, _
    rw [hmappings]
    exact fun v hv => hv
  · exact fun v hv => (hsize v hv).ge

/-- A call that opens and fails. -/
theorem Sturdy.openClose (h : σ.Sturdy) {k k₁ : Posix} {space : Space} {name : String}
    {flags : OpenFlags} {answer : Except ℕ ℤ} {fd : ℤ}
    (htrunc : flags.trunc = true → σ.posix.Unmapped space name)
    (hopen : σ.posix.openName space name flags answer = .ok (fd, k₁))
    (hfresh : k.Fresh) (hmappings : k.mappings = k₁.mappings)
    (hdescriptors : k.descriptors = k₁.descriptors)
    (hsize : ∀ v ∈ k₁.mappings, k.size v.inode = k₁.size v.inode) :
    Sturdy { σ with posix := k.close fd } := by
  obtain ⟨-, hmappings₁, hsize₁, -⟩ := h.fresh.openName htrunc hopen
  refine ⟨h.accounted.openClose hopen hmappings hdescriptors, hfresh.close fd,
    h.backed.transfer (fun o _ ho => ⟨o, ho⟩) ?_ ?_⟩
  · show ∀ v ∈ k.mappings, _
    rw [hmappings, hmappings₁]
    exact fun v hv => hv
  · intro v hv
    show _ ≤ k.size v.inode
    rw [hsize v (by rwa [hmappings₁]), hsize₁ v hv]

theorem Sturdy.unmapFile [DecidableEq ι] (h : σ.Sturdy) (mappedPtr : ℕ) :
    Sturdy (σ.unmapFile mappedPtr) := by
  have hposix : (σ.unmapFile mappedPtr).posix.Fresh ∧
      (σ.unmapFile mappedPtr).posix.mappings.Sublist σ.posix.mappings ∧
      (σ.unmapFile mappedPtr).posix.size = σ.posix.size := by
    unfold Mappings.unmapFile
    rcases hentry : σ.mappedFiles mappedPtr with _ | ⟨fd, address, size⟩
    · exact ⟨h.fresh, .refl _, rfl⟩
    · have howner : σ.owner (.inr mappedPtr) = some (address, pageAlign size) := by
        rw [owner, hentry]
        rfl
      obtain ⟨-, -, hsublist⟩ := h.accounted.posix.munmap (h.accounted.mapped.mem howner)
      have hfresh : (σ.posix.munmap address size).Fresh := h.fresh.sublist hsublist rfl rfl rfl
      dsimp only
      split_ifs
      · exact ⟨hfresh, hsublist, rfl⟩
      · exact ⟨hfresh.close fd, hsublist, rfl⟩
  obtain ⟨hfresh, hsublist, hsize⟩ := hposix
  refine ⟨h.accounted.unmapFile mappedPtr, hfresh, h.backed.transfer (fun o _ => held_unmapFile)
    (fun v hv => hsublist.subset hv) fun v _ => ?_⟩
  rw [hsize]

/-- A file becomes longer. -/
theorem Sturdy.extends (h : σ.Sturdy) {k : Posix} (hextends : σ.posix.Extends k) :
    Sturdy { σ with posix := k } := by
  refine ⟨h.accounted.congr hextends.mappings hextends.descriptors, h.fresh.extends hextends,
    h.backed.transfer (fun o _ ho => ⟨o, ho⟩) ?_ fun v _ => hextends.size v.inode⟩
  show ∀ v ∈ k.mappings, _
  rw [hextends.mappings]
  exact fun v hv => hv

theorem sturdy_start {names : Space → String → Option ℕ} {size : ℕ → ℕ} {nextInode : ℕ}
    (hnames : ∀ space name inode, names space name = some inode → inode < nextInode) :
    Sturdy (start names size nextInode : Mappings ι) where
  accounted := accounted_start names size nextInode
  fresh := ⟨hnames, fun _ hfile => (List.not_mem_nil hfile).elim,
    fun _ hv => (List.not_mem_nil hv).elim⟩
  backed := fun _ _ _ _ _ hv => (List.not_mem_nil hv).elim

/-- What `Backed` does not speak of changes. -/
theorem Sturdy.shmUnlink (h : σ.Sturdy) (name : String) :
    Sturdy { σ with posix := σ.posix.shmUnlink name } :=
  ⟨h.accounted.congr rfl rfl, h.fresh.shmUnlink name,
    h.backed.transfer (fun o _ ho => ⟨o, ho⟩) (fun _ hv => hv) fun _ _ => le_rfl⟩

theorem Sturdy.closeFile (h : σ.Sturdy) {fd : ℤ} (hfd : σ.handles fd = true) :
    Sturdy { σ with
      posix := σ.posix.close fd
      handles := Function.update σ.handles fd false } :=
  ⟨h.accounted.closeFile hfd, h.fresh.close fd,
    h.backed.transfer (fun o _ ho => ⟨o, ho⟩) (fun _ hv => hv) fun _ _ => le_rfl⟩

/-- A file or a shared memory that is open is mapped, and no more of it than there is. -/
theorem Sturdy.enter [DecidableEq ι] (h : σ.Sturdy) {k₁ k₂ k₃ : Posix} {space : Space}
    {name : String} {flags : OpenFlags} {answers : Answers} {fd : ℤ} {size address : ℕ}
    {shared : Bool} (htrunc : flags.trunc = true → σ.posix.Unmapped space name)
    (hopen : σ.posix.openName space name flags answers.openFile = .ok (fd, k₁))
    (hfresh : k₂.Fresh) (hmappings : k₂.mappings = k₁.mappings)
    (hdescriptors : k₂.descriptors = k₁.descriptors)
    (hsize : ∀ v ∈ k₁.mappings, k₂.size v.inode = k₁.size v.inode)
    (hlong : ∀ file, k₂.find fd = some file → size ≤ k₂.size file.inode)
    (hmmap : k₂.mmap size shared fd 0 answers.mmap = .ok (address, k₃)) :
    Sturdy (σ.enter k₃ fd address size) := by
  obtain ⟨-, hmappings₁, hsize₁, -⟩ := h.fresh.openName htrunc hopen
  have haccounted := h.accounted.enter hopen hmappings hdescriptors hmmap
  have hfresh₃ : k₃.Fresh := hfresh.mmap hmmap
  obtain ⟨hpos, -, hfree, -, file, hfile, -, -, rfl⟩ := Posix.mmap_eq_ok hmmap
  have hsame : k₂.mappings = σ.posix.mappings := hmappings.trans hmappings₁
  refine ⟨haccounted, hfresh₃, h.backed.acquire h.accounted
    ⟨address, pageAlign size, file.inode, 0⟩ size ?_ (fun _ _ => held_enter) ?_ ?_ ?_⟩
  · apply h.accounted.address_ne hpos
    intro v hv
    exact hfree v (hsame ▸ hv)
  · rintro v (_ | ⟨_, hv⟩)
    · exact .inl rfl
    · exact .inr (hsame ▸ hv)
  · intro v hv
    show _ ≤ k₂.size v.inode
    rw [hsize v (hmappings₁ ▸ hv), hsize₁ v hv]
  · show 0 + size ≤ k₂.size file.inode
    rw [Nat.zero_add]
    exact hlong file hfile

section

variable [DecidableEq ι]

theorem held_setObject {i : ι} {object : Option MemoryMappedRegion} {k : Posix} {o : ι ⊕ ℕ}
    {extent : ℕ × ℕ} (h : (σ.setObject i object k).held o = some extent) :
    (∃ region, object = some region ∧ region.ptr ≠ 0 ∧ extent = (region.ptr, region.size)) ∨
      σ.held o = some extent := by
  rcases o with j | p
  · by_cases hj : j = i
    · subst hj
      simp only [held, Mappings.setObject, Function.update_self] at h
      rcases object with _ | region
      · cases h
      · rw [Option.bind_some] at h
        split_ifs at h with hptr
        exact .inl ⟨region, rfl, hptr, (Option.some.inj h).symm⟩
    · simp only [held, Mappings.setObject, Function.update_of_ne hj] at h
      exact .inr h
  · exact .inr h

/-- A region is unmapped. -/
theorem Sturdy.unmapRegion (h : σ.Sturdy) {i : ι} {region : MemoryMappedRegion}
    (hi : σ.objects i = some region) {object : Option MemoryMappedRegion}
    (hobject : object.bind MemoryMappedRegion.extent = none) :
    Sturdy (σ.setObject i object (region.unmap σ.posix).2) := by
  obtain ⟨-, -, -, -, hsublist⟩ := unmap_spec h.accounted.posix (h.accounted.mem_live hi)
  have hsame : (region.unmap σ.posix).2.names = σ.posix.names ∧
      (region.unmap σ.posix).2.descriptors = σ.posix.descriptors ∧
      (region.unmap σ.posix).2.nextInode = σ.posix.nextInode ∧
      (region.unmap σ.posix).2.size = σ.posix.size := by
    unfold MemoryMappedRegion.unmap
    split_ifs
    · exact ⟨rfl, rfl, rfl, rfl⟩
    · exact ⟨rfl, rfl, rfl, rfl⟩
  refine ⟨h.accounted.unmapRegion hi hobject,
    h.fresh.sublist hsublist hsame.1 hsame.2.1 hsame.2.2.1, h.backed.transfer ?_
      (fun v hv => hsublist.subset hv) fun v _ => ?_⟩
  · intro o extent ho
    rcases held_setObject ho with ⟨region', rfl, hptr, -⟩ | hold
    · rw [Option.bind_some, MemoryMappedRegion.extent, if_neg hptr] at hobject
      cases hobject
    · exact ⟨o, hold⟩
  · show _ ≤ (region.unmap σ.posix).2.size v.inode
    rw [hsame.2.2.2]

theorem Sturdy.moveAssign (h : σ.Sturdy) {i j : ι} {this other : MemoryMappedRegion}
    (hi : σ.objects i = some this) (hj : σ.objects j = some other) :
    Sturdy (σ.moveAssign i j this other) := by
  have haccounted := h.accounted.moveAssign hi hj
  unfold Mappings.moveAssign at haccounted ⊢
  by_cases hij : i = j
  · rw [if_pos hij]
    exact h
  · rw [if_neg hij] at haccounted ⊢
    have hempty : Sturdy (σ.setObject i (some .empty) (this.unmap σ.posix).2) :=
      h.unmapRegion hi rfl
    refine ⟨haccounted, hempty.fresh, hempty.backed.transfer ?_ (fun v hv => hv) fun v _ => le_rfl⟩
    intro o extent ho
    rcases held_setObject ho with ⟨region', heq, hptr, -⟩ | ho
    · obtain rfl := Option.some.inj heq
      exact absurd rfl hptr
    · rcases o with i' | p
      · by_cases hi' : i' = i
        · subst hi'
          refine ⟨.inl j, ?_⟩
          simp only [held, Mappings.setObject, Function.update_self] at ho
          simp only [held, Mappings.setObject, Function.update_of_ne (Ne.symm hij), hj]
          exact ho
        · refine ⟨.inl i', ?_⟩
          simp only [held, Mappings.setObject, Function.update_of_ne hi'] at ho ⊢
          exact ho
      · exact ⟨.inr p, ho⟩

/-- A mapping that `mmap` gives a region does not wrap around in its file. -/
theorem offset_add {offset size : UInt64} {address : ℕ} (hoffset : 0 ≤ offT offset)
    (haddress : address + size.toNat ≤ 140737488355328) :
    (offT offset).toNat + size.toNat = (offset + size).toNat := by
  have hlt := offset.toNat_lt
  have hlow : offset.toNat < 9223372036854775808 := by
    unfold offT at hoffset
    split_ifs at hoffset with hlow
    · exact hlow
    · omega
  rw [offT, if_pos hlow, Int.toNat_natCast, UInt64.toNat_add, Nat.mod_eq_of_lt]
  omega

theorem Sturdy.map (h : σ.Sturdy) {i : ι} {region region' : MemoryMappedRegion}
    (hi : σ.objects i = some region) {handle : ℤ} {offset size : UInt64} {answers : Answers}
    {k : Posix} {result : Except String Unit}
    (hmap : region.map handle offset size answers σ.posix = (result, region', k)) :
    Sturdy (σ.setObject i (some region') k) := by
  have haccounted := h.accounted.map hi hmap
  obtain ⟨-, -, -, hextent, -⟩ := unmap_spec h.accounted.posix (h.accounted.mem_live hi)
  have hempty : Sturdy (σ.setObject i (some (region.unmap σ.posix).1)
      (region.unmap σ.posix).2) := h.unmapRegion hi hextent
  rcases mapEmpty_cases hmap with ⟨rfl, hextends⟩ |
    ⟨k₁, address, hextends, hlong, hmmap, rfl⟩
  · exact hempty.extends hextends
  · have hlonger := hempty.extends hextends
    have hfresh : k.Fresh := Posix.Fresh.mmap hlonger.fresh hmmap
    obtain ⟨hpos, -, hfree, -, file, hfile, hoffset, haddress, rfl⟩ := Posix.mmap_eq_ok hmmap
    refine ⟨haccounted, hfresh, hlonger.backed.acquire hlonger.accounted
      ⟨address, pageAlign size.toNat, file.inode, (offT offset).toNat⟩ size.toNat ?_ ?_ ?_
      (fun v _ => le_rfl) ?_⟩
    · exact hlonger.accounted.address_ne hpos hfree
    · intro o extent ho
      rw [← setObject_setObject (some (region.unmap σ.posix).1) _ (region.unmap σ.posix).2] at ho
      rcases held_setObject ho with ⟨region', heq, -, hextent'⟩ | hold
      · obtain rfl := Option.some.inj heq
        exact .inl hextent'
      · exact .inr ⟨o, hold⟩
    · rintro v (_ | ⟨_, hv⟩)
      · exact .inl rfl
      · exact .inr hv
    · show (offT offset).toNat + size.toNat ≤ k₁.size file.inode
      rw [offset_add hoffset haddress]
      exact hlong file hfile

theorem Sturdy.mapFile (h : σ.Sturdy) (path : String) (answers : Answers) :
    Sturdy (σ.mapFile path answers).2 := by
  have htrunc : OpenFlags.trunc ⟨.read, false, false, false⟩ = true →
      σ.posix.Unmapped .file path := fun hflag => absurd hflag Bool.false_ne_true
  unfold Mappings.mapFile
  rcases hopen : σ.posix.openName .file path ⟨.read, false, false, false⟩ answers.openFile with
    errno | ⟨fd, k⟩
  · exact h
  · obtain ⟨hfresh, -⟩ := h.fresh.openName htrunc hopen
    dsimp only
    rcases hstat : k.fstat fd answers.fstat with _ | size
    · exact h.openClose htrunc hopen hfresh rfl rfl fun _ _ => rfl
    · dsimp only
      split_ifs
      · exact h.openClose htrunc hopen hfresh rfl rfl fun _ _ => rfl
      · rcases hmmap : k.mmap size false fd 0 answers.mmap with errno | ⟨address, k'⟩
        · exact h.openClose htrunc hopen hfresh rfl rfl fun _ _ => rfl
        · refine h.enter htrunc hopen hfresh rfl rfl (fun _ _ => rfl) ?_ hmmap
          intro file hfile
          rw [Posix.fstat, hfile] at hstat
          dsimp only at hstat
          split_ifs at hstat
          exact (Option.some.inj hstat).ge

theorem Sturdy.mapOpened (h : σ.Sturdy) {k k₁ : Posix} {name : String} {flags : OpenFlags}
    {answers : Answers} {fd : ℤ} {size : UInt64}
    (htrunc : flags.trunc = true → σ.posix.Unmapped .sharedMemory name)
    (hopen : σ.posix.openName .sharedMemory name flags answers.openFile = .ok (fd, k₁))
    (hfresh : k.Fresh) (hmappings : k.mappings = k₁.mappings)
    (hdescriptors : k.descriptors = k₁.descriptors)
    (hsize : ∀ v ∈ k₁.mappings, k.size v.inode = k₁.size v.inode)
    (hlong : ∀ file, k.find fd = some file → size.toNat ≤ k.size file.inode) :
    Sturdy (σ.mapOpened name size fd answers k).2 := by
  unfold Mappings.mapOpened
  rcases hmmap : k.mmap size.toNat true fd 0 answers.mmap with errno | ⟨address, k'⟩
  · exact h.openClose htrunc hopen hfresh hmappings hdescriptors hsize
  · exact h.enter htrunc hopen hfresh hmappings hdescriptors hsize hlong hmmap

/-- The owner truncates an object that nobody has mapped, and gives it its size. -/
theorem Sturdy.mapOwned (h : σ.Sturdy) {name : String} (size : UInt64) (answers : Answers)
    (hunmapped : σ.posix.Unmapped .sharedMemory name) :
    Sturdy (σ.mapSharedMemory name size true answers).2 := by
  unfold Mappings.mapSharedMemory
  rw [if_pos rfl]
  rcases hopen : σ.posix.openName .sharedMemory name ⟨.readWrite, true, false, true⟩
    answers.openFile with errno | ⟨fd, k⟩
  · exact h
  · obtain ⟨hfresh, hmappings, -, file, hfile, hother, -⟩ :=
      h.fresh.openName (fun _ => hunmapped) hopen
    dsimp only
    rcases htruncate : k.ftruncate fd (offT size) answers.ftruncate with _ | k'
    · have hclosed := h.openClose (fun _ => hunmapped) hopen hfresh rfl rfl fun _ _ => rfl
      exact ⟨hclosed.accounted.congr rfl rfl, hclosed.fresh.shmUnlink name,
        hclosed.backed.transfer (fun o _ ho => ⟨o, ho⟩) (fun _ hv => hv) fun _ _ => le_rfl⟩
    · obtain ⟨hlength, file', hfile', rfl⟩ := Posix.ftruncate_eq_some htruncate
      obtain rfl := Option.some.inj (hfile.symm.trans hfile')
      refine h.mapOpened (fun _ => hunmapped) hopen
        ⟨hfresh.names, hfresh.descriptors, hfresh.mappings⟩ rfl rfl ?_ ?_
      · intro v hv
        exact Function.update_of_ne (hother hunmapped v (hmappings ▸ hv)) _ _
      · intro file' hfile'
        obtain rfl := Option.some.inj (hfile.symm.trans hfile')
        show _ ≤ Function.update k.size file.inode _ file.inode
        rw [Function.update_self]
        unfold offT at hlength ⊢
        have hlt := size.toNat_lt
        split_ifs at hlength ⊢
        · exact (Int.toNat_natCast _).ge
        · omega

/-- A consumer maps no more than there is. -/
theorem Sturdy.mapConsumed (h : σ.Sturdy) {name : String} (size : UInt64) (answers : Answers)
    (hlong : ∀ inode, σ.posix.names .sharedMemory name = some inode →
      size.toNat ≤ σ.posix.size inode) :
    Sturdy (σ.mapSharedMemory name size false answers).2 := by
  have htrunc : OpenFlags.trunc ⟨.readWrite, false, false, false⟩ = true →
      σ.posix.Unmapped .sharedMemory name := fun hflag => absurd hflag Bool.false_ne_true
  unfold Mappings.mapSharedMemory
  rw [if_neg Bool.false_ne_true]
  rcases hopen : σ.posix.openName .sharedMemory name ⟨.readWrite, false, false, false⟩
    answers.openFile with errno | ⟨fd, k⟩
  · exact h
  · obtain ⟨hfresh, -, -, file, hfile, -, hkept⟩ := h.fresh.openName htrunc hopen
    refine h.mapOpened htrunc hopen hfresh rfl rfl (fun _ _ => rfl) ?_
    intro file' hfile'
    obtain rfl := Option.some.inj (hfile.symm.trans hfile')
    rcases hname : σ.posix.names .sharedMemory name with _ | inode
    · -- there is nothing of that name to open
      exfalso
      obtain ⟨-, -, inode, k₁, hresolve, -⟩ := Posix.openName_eq_ok hopen
      unfold Posix.resolve at hresolve
      simp only [hname] at hresolve
      cases hresolve
    · obtain ⟨rfl, hsize⟩ := hkept rfl inode hname
      rw [hsize]
      exact hlong _ hname

theorem Sturdy.construct (h : σ.Sturdy) {i : ι} (hi : σ.objects i = none) :
    Sturdy (σ.setObject i (some .empty) σ.posix) := by
  refine ⟨h.accounted.construct hi, h.fresh,
    h.backed.transfer ?_ (fun _ hv => hv) fun _ _ => le_rfl⟩
  intro o extent ho
  rcases held_setObject ho with ⟨region', heq, hptr, -⟩ | hold
  · obtain rfl := Option.some.inj heq
    exact absurd rfl hptr
  · exact ⟨o, hold⟩

theorem Sturdy.step (h : σ.Sturdy) {event : Event ι} (hcareful : σ.Careful event)
    (hstep : σ.step event = some σ') : σ'.Sturdy := by
  have heffect := step_effect hstep
  cases event with
  | «open» path access mode answers =>
    rcases heffect with rfl | ⟨fd, k, hopen, rfl⟩
    · exact h
    · exact h.openFile hcareful hopen
  | close handle =>
    rcases heffect with rfl | ⟨hhandle, rfl⟩
    · exact h
    · exact h.closeFile hhandle
  | construct i =>
    obtain ⟨hi, rfl⟩ := heffect
    exact h.construct hi
  | moveConstruct i j =>
    obtain ⟨other, hi, hj, rfl⟩ := heffect
    exact (h.construct hi).moveAssign (Function.update_self _ _ _)
      (objects_setObject_of_some hi hj)
  | assign i j =>
    obtain ⟨this, other, hi, hj, rfl⟩ := heffect
    exact h.moveAssign hi hj
  | destroy i =>
    obtain ⟨region, hi, rfl⟩ := heffect
    exact h.unmapRegion hi rfl
  | map i handle offset size answers =>
    obtain ⟨region, result, region', k, hi, hmap, rfl⟩ := heffect
    exact h.map hi hmap
  | unmap i =>
    obtain ⟨region, hi, rfl⟩ := heffect
    exact h.unmapRegion hi (unmap_spec h.accounted.posix (h.accounted.mem_live hi)).2.2.2.1
  | mapFile path answers =>
    obtain rfl := heffect
    exact h.mapFile path answers
  | mapSharedMemory name size isOwner answers =>
    obtain rfl := heffect
    cases isOwner with
    | true => exact h.mapOwned size answers hcareful
    | false => exact h.mapConsumed size answers hcareful
  | unmapFile mappedPtr =>
    obtain rfl := heffect
    exact h.unmapFile mappedPtr
  | unlinkSharedMemory name =>
    rcases heffect with rfl | rfl
    · exact h
    · exact h.shmUnlink name

/-- **Every mapped byte is a byte of its file**, in every state of every run whose events do not
truncate what is mapped and do not map more of another's shared memory than there is. -/
theorem mapped_bytes_in_file {names : Space → String → Option ℕ} {size : ℕ → ℕ} {nextInode : ℕ}
    {events : List (Event ι)}
    (hnames : ∀ space name inode, names space name = some inode → inode < nextInode)
    (hrun : EventRun.run step (start names size nextInode) events = some σ)
    (hcareful : EventRun.Along step Careful (start names size nextInode) events) :
    EventRun.Throughout step Backed (start names size nextInode) events := by
  have hsturdy : EventRun.Throughout step Sturdy (start names size nextInode) events :=
    EventRun.throughout_of_along (fun _ _ _ h hC hstep => Sturdy.step h hC hstep) hrun
      (sturdy_start hnames) hcareful
  exact hsturdy.mono fun _ h => h.backed

end

/-- Shared memory, a region behind the end of a new file, and the file as it then is. -/
def extendAndMap : List (Event (Fin 1)) :=
  [.mapSharedMemory "s" 5000 true ⟨.ok 3, true, true, .ok 65536⟩,
    .open "a" .readWrite .createNew ⟨.ok 4, true, true, .error 12⟩, .construct 0,
    .map 0 4 8192 10 ⟨.error 24, true, true, .ok 131072⟩, .close 4,
    .mapFile "a" ⟨.ok 4, true, true, .ok 262144⟩]

theorem mapped_bytes_in_file_extended :
    ∃ σ, EventRun.run step (start (fun _ _ => none) (fun _ => 0) 0) extendAndMap = some σ ∧
      σ.posix.mappings = [⟨262144, 12288, 1, 0⟩, ⟨131072, 4096, 1, 8192⟩, ⟨65536, 8192, 0, 0⟩] ∧
      σ.Backed := by
  have hmappings : (EventRun.run step (start (fun _ _ => none) (fun _ => 0) 0) extendAndMap).map
      (fun σ => σ.posix.mappings) =
        some [⟨262144, 12288, 1, 0⟩, ⟨131072, 4096, 1, 8192⟩, ⟨65536, 8192, 0, 0⟩] := by
    decide +kernel
  obtain ⟨σ, hrun, hσ⟩ := Option.map_eq_some_iff.mp hmappings
  have hcareful : EventRun.Along step Careful
      (start (fun _ _ => none) (fun _ => 0) 0 : Mappings (Fin 1)) extendAndMap := by
    refine ⟨fun _ _ v hv => (List.not_mem_nil hv).elim, fun _ _ => ⟨fun hflag => ?_, fun _ _ =>
      ⟨trivial, fun _ _ => ⟨trivial, fun _ _ => ⟨trivial, fun _ _ => ⟨trivial, fun _ _ =>
        trivial⟩⟩⟩⟩⟩⟩
    cases hflag
  have hbacked := mapped_bytes_in_file (fun _ _ _ hname => by cases hname) hrun hcareful
  exact ⟨σ, hrun, hσ, hbacked extendAndMap σ (List.prefix_refl _) hrun⟩

end Mappings

end IACore
