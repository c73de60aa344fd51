import IACore.FileOps.Equiv.Frame
import IACore.StreamReader.Files

/-!
# `StreamReader`s over files read their files

The entries of `s_mapped_files` are handles of the readers and of the rest of the program: each has
one keeper (`Entered`), who alone gives it to `unmap_file`.  So the entry and the mapping of a
reader stay as long as it has them (`Reading.keeps`), and since no file gets shorter under a
mapping, a reader of a file does just what a reader over the bytes of the file does
(`Reading.readsFile`), with its checks of bounds and all.
-/

namespace IACore

open FileOps UniqueHandle

/-! ### Reading from a mapping -/

theorem Option.mapM_eq_some {α β : Type*} {f : α → Option β} {g : α → β} {l : List α}
    (h : ∀ a ∈ l, f a = some (g a)) : l.mapM f = some (l.map g) := by
  induction l with
  | nil => rfl
  | cons a l ih =>
    rw [List.mapM_cons, h a List.mem_cons_self, ih fun b hb => h b (List.mem_cons_of_mem _ hb)]
    rfl

namespace FileReaders

variable {ι κ : Type*} {files files' : Mappings ι} {r r' : FileReader} {o : Option ℕ}

/-- A reader has the entry and the mapping of the file that it was created from, or neither. -/
def Reading (files : Mappings ι) (r : FileReader) (o : Option ℕ) : Prop :=
  match r.entry with
  | none => o = none
  | some address => ∃ inode fd, o = some inode ∧
      files.mappedFiles address = some (fd, address, r.dataSize) ∧
      ⟨address, pageAlign r.dataSize, inode, 0⟩ ∈ files.posix.mappings

theorem Reading.of_none (h : r.entry = none) : Reading files r none := by
  rw [Reading, h]

/-- A reader whose cursor has moved. -/
theorem Reading.congr (h : Reading files r o) (hdata : r'.data = r.data)
    (hsize : r'.dataSize = r.dataSize) (htype : r'.storageType = r.storageType) :
    Reading files r' o := by
  have hentry : r'.entry = r.entry := by rw [FileReader.entry, FileReader.entry, hdata, htype]
  rw [Reading, hentry, hsize]
  exact h

theorem Reading.keeps (h : Reading files r o)
    (hkeeps : ∀ p, r.entry = some p → files.Keeps files' p) : Reading files' r o := by
  unfold Reading at h ⊢
  rcases hentry : r.entry with _ | address
  · rw [hentry] at h
    exact h
  · rw [hentry] at h
    obtain ⟨inode, fd, rfl, hfile, hmapping⟩ := h
    have hkept := hkeeps address hentry
    have hne : files.mappedFiles address ≠ none := by
      rw [hfile]
      exact Option.some_ne_none _
    exact ⟨inode, fd, rfl, (hkept.entry hne).trans hfile, hkept.mapping hne _ hmapping rfl⟩

theorem FileReader.entry_eq_some {address : ℕ} (h : r.entry = some address) :
    r.storageType = .owningMmap ∧ r.data = .mapped address := by
  unfold FileReader.entry at h
  split at h
  · rename_i htype hdata
    obtain rfl := Option.some.inj h
    exact ⟨htype, hdata⟩
  · cases h

/-- A read moves the cursor only. -/
theorem FileReader.of_read {k : Posix} {size : ℕ} {result : Except String (List Place)}
    (h : r.read k size = some (result, r')) :
    r'.data = r.data ∧ r'.dataSize = r.dataSize ∧ r'.storageType = r.storageType := by
  unfold FileReader.read at h
  split_ifs at h
  · cases h
    exact ⟨rfl, rfl, rfl⟩
  · obtain ⟨places, -, heq⟩ := Option.map_eq_some_iff.mp h
    cases heq
    exact ⟨rfl, rfl, rfl⟩

/-- What a reader copies is where it should be. -/
theorem Reading.load {inode : ℕ} (h : Reading files r (some inode)) (hfiles : files.Sturdy) {i : ℕ}
    (hi : i < r.dataSize) : r.data.load files.posix i = some (.file inode i) := by
  unfold Reading at h
  rcases hentry : r.entry with _ | address
  · rw [hentry] at h
    cases h
  · rw [hentry] at h
    obtain ⟨inode', fd, heq, hfile, hmapping⟩ := h
    obtain rfl := Option.some.inj heq
    have hheld : files.held (.inr address) = some (address, r.dataSize) := by
      rw [Mappings.held, hfile]
      rfl
    have hbacked : 0 + r.dataSize ≤ files.posix.size inode :=
      hfiles.backed _ _ _ hheld _ hmapping rfl
    have hpage : i < pageAlign r.dataSize := hi.trans_le (Posix.le_pageAlign r.dataSize)
    have hfind := hfiles.accounted.posix.find_mapping hmapping hpage
    have hoffset : 0 + (address + i - address) = i := by omega
    rw [(FileReader.entry_eq_some hentry).2, Pointer.load, Posix.load, hfind]
    dsimp only
    rw [hoffset, if_pos (by omega)]

/-- **A reader of a file reads the file.** -/
theorem Reading.readsFile {inode : ℕ} (h : Reading files r (some inode)) (hfiles : files.Sturdy) :
    ReadsFile files.posix r inode := by
  intro content size hsize
  have husize : usize (r.cursor + size) = r.cursor + size := Nat.mod_eq_of_lt hsize
  by_cases hend : r.cursor + size > r.dataSize
  · have hend' : usize (r.cursor + size) > r.dataSize := by rwa [husize]
    have hread : r.read files.posix size = some (.error "Unexpected EOF while reading", r) :=
      if_pos hend'
    have hover : (overFile (content inode) r).readBytes size =
        some (.error "Unexpected EOF while reading", overFile (content inode) r) := if_pos hend'
    rw [hread, hover]
    rfl
  · have hend' : ¬ usize (r.cursor + size) > r.dataSize := by rwa [husize]
    have hplaces : (List.range size).mapM (fun i => r.data.load files.posix (r.cursor + i)) =
        some ((List.range size).map fun i => Place.file inode (r.cursor + i)) := by
      apply Option.mapM_eq_some
      intro i hi
      have hlt := List.mem_range.mp hi
      exact h.load hfiles (by omega)
    have hread : r.read files.posix size =
        some (.ok ((List.range size).map fun i => Place.file inode (r.cursor + i)),
          { r with cursor := usize (r.cursor + size) }) := by
      unfold FileReader.read
      rw [if_neg hend', hplaces]
      rfl
    have hfits : r.cursor + size ≤ ((List.range r.dataSize).map (content inode)).length := by
      rw [List.length_map, List.length_range]
      exact not_lt.mp hend
    have hover : (overFile (content inode) r).readBytes size =
        some (.ok ((((List.range r.dataSize).map (content inode)).drop r.cursor).take size),
          { overFile (content inode) r with cursor := usize (r.cursor + size) }) :=
      (if_neg hend').trans (if_pos hfits)
    have hbytes : bytesAt content ((List.range size).map fun i => Place.file inode (r.cursor + i)) =
        (((List.range r.dataSize).map (content inode)).drop r.cursor).take size := by
      apply List.ext_getElem
      · simp [bytesAt]
        omega
      · intro i hi hi'
        simp [bytesAt]
    rw [hread, hover, ← hbytes]
    rfl

/-! ### The keepers of the entries -/

/-- Every entry of the table has one keeper. -/
def Entered {τ : Type*} (files : Mappings ι) (keeper : τ → Option ℕ) : Prop :=
  ∃ live : Multiset ℕ, live.Nodup ∧ (∀ p, p ∈ live ↔ files.mappedFiles p ≠ none) ∧
    Owned keeper live

section

variable {τ : Type*} {keeper : τ → Option ℕ} {i j : τ} {p : ℕ}

theorem Entered.congr (h : Entered files keeper)
    (hentries : files'.mappedFiles = files.mappedFiles) :
    Entered files' keeper := by
  unfold Entered
  rw [hentries]
  exact h

/-- What is kept is in the table, and nothing else is. -/
theorem Entered.mem_iff (h : Entered files keeper) (p : ℕ) :
    files.mappedFiles p ≠ none ↔ ∃ i, keeper i = some p := by
  obtain ⟨live, -, hlive, howned⟩ := h
  rw [← hlive]
  exact ⟨howned.exists_of_mem, fun ⟨_, hi⟩ => howned.mem hi⟩

variable [DecidableEq τ]

theorem Entered.unique (h : Entered files keeper) (hi : keeper i = some p)
    (hj : keeper j = some p) : i = j := by
  obtain ⟨live, hnodup, -, howned⟩ := h
  exact howned.unique hnodup hi hj

theorem Entered.acquire (h : Entered files keeper) (hi : keeper i = none)
    (hp : files.mappedFiles p = none) {e : ℤ × ℕ × ℕ}
    (hentries : files'.mappedFiles = Function.update files.mappedFiles p (some e)) :
    Entered files' (Function.update keeper i (some p)) := by
  obtain ⟨live, hnodup, hlive, howned⟩ := h
  refine ⟨p ::ₘ live, Multiset.nodup_cons.mpr ⟨?_, hnodup⟩, fun q => ?_, howned.acquire hi p⟩
  · rw [hlive]
    exact fun hne => hne hp
  · rw [hentries, Multiset.mem_cons, hlive]
    by_cases hq : q = p
    · rw [hq, Function.update_self]
      exact iff_of_true (Or.inl rfl) (Option.some_ne_none e)
    · rw [Function.update_of_ne hq]
      exact or_iff_right hq

theorem Entered.release (h : Entered files keeper) (hi : keeper i = some p)
    (hentries : files'.mappedFiles = Function.update files.mappedFiles p none) :
    Entered files' (Function.update keeper i none) := by
  obtain ⟨live, hnodup, hlive, howned⟩ := h
  have hmem := howned.mem hi
  refine ⟨live.erase p, hnodup.erase p, fun q => ?_, ?_⟩
  · rw [hnodup.mem_erase_iff, hlive, hentries]
    by_cases hq : q = p
    · rw [hq, Function.update_self]
      exact iff_of_false (fun h => h.1 rfl) (fun h => h rfl)
    · rw [Function.update_of_ne hq]
      exact and_iff_right hq
  · apply Owned.release
    rw [hi, single_some, Multiset.singleton_add, Multiset.cons_erase hmem]
    exact howned

theorem Entered.move (h : Entered files keeper) (hij : i ≠ j) (hi : keeper i = none) :
    Entered files (Function.update (Function.update keeper i (keeper j)) j none) := by
  obtain ⟨live, hnodup, hlive, howned⟩ := h
  exact ⟨live, hnodup, hlive, howned.move hij hi⟩

end

/-! ### The invariant -/

variable {σ σ' : FileReaders ι κ} {id : κ}

/-- Who keeps an entry: a reader, or the rest of the program. -/
def keeper (σ : FileReaders ι κ) : κ ⊕ ℕ → Option ℕ
  | .inl id => σ.entry id
  | .inr p => if σ.callers p then some p else none

/-- Every reader has what it reads. -/
structure Reads (σ : FileReaders ι κ) : Prop where
  files : σ.files.Sturdy
  reading : ∀ id r, σ.readers id = some r → Reading σ.files r (σ.origin id)
  absent : ∀ id, σ.readers id = none → σ.origin id = none

/-- What holds in every state of a careful run. -/
structure Kept (σ : FileReaders ι κ) : Prop extends Reads σ where
  entered : Entered σ.files σ.keeper

/-- Nobody keeps what is not in the table. -/
theorem Kept.keeper_eq_none (h : σ.Kept) {p : ℕ} (hp : σ.files.mappedFiles p = none) :
    σ.keeper (.inr p) = none := by
  unfold keeper
  dsimp only
  split_ifs with hcaller
  · have hkeeper : σ.keeper (.inr p) = some p := if_pos hcaller
    exact absurd hp ((h.entered.mem_iff p).mpr ⟨_, hkeeper⟩)
  · rfl

theorem entry_of_readers (hr : σ.readers id = some r) : σ.entry id = r.entry := by
  rw [entry, hr]
  rfl

/-- The files change, but not what the readers have of them. -/
theorem Reads.frame (h : σ.Reads) {callers' : ℕ → Bool} (hfiles : files'.Sturdy)
    (hkeeps : ∀ id p, σ.entry id = some p → σ.files.Keeps files' p) :
    Reads { σ with files := files', callers := callers' } where
  files := hfiles
  reading id r hr := (h.reading id r hr).keeps fun p hp =>
    hkeeps id p ((entry_of_readers hr).trans hp)
  absent := h.absent

theorem keeper_callers [DecidableEq κ] (files' : Mappings ι) (p : ℕ) (isCaller : Bool) :
    keeper { σ with files := files', callers := Function.update σ.callers p isCaller } =
      Function.update σ.keeper (.inr p) (if isCaller then some p else none) := by
  funext k
  rcases k with id | q
  · rfl
  · by_cases hq : q = p
    · subst hq
      simp [keeper]
    · have hne : (Sum.inr q : κ ⊕ ℕ) ≠ .inr p := fun heq => hq (Sum.inr.inj heq)
      rw [Function.update_of_ne hne]
      simp [keeper, Function.update_of_ne hq]

/-- A call fails that would have mapped a file. -/
theorem Kept.fails (h : σ.Kept) {k : Posix} (hfiles : Mappings.Sturdy { σ.files with posix := k })
    (hmappings : k.mappings = σ.files.posix.mappings) :
    Kept { σ with files := { σ.files with posix := k } } :=
  ⟨h.frame hfiles fun _ _ _ => .of_mappings rfl hmappings, h.entered.congr rfl⟩

/-- The rest of the program maps a file. -/
theorem Kept.grants [DecidableEq κ] (h : σ.Kept) {k : Posix} {v : Vma} {size : ℕ} {fd : ℤ}
    (hadds : σ.files.Adds k v size) (hfiles : (σ.files.enter k fd v.address size).Sturdy) :
    Kept { σ with
      files := σ.files.enter k fd v.address size
      callers := Function.update σ.callers v.address true } := by
  have hnone := hadds.not_entered h.files.accounted
  refine ⟨h.frame hfiles fun _ _ _ => hadds.keeps h.files.accounted, ?_⟩
  rw [keeper_callers]
  exact h.entered.acquire (h.keeper_eq_none hnone) hnone rfl

theorem process_of_aside [DecidableEq ι] {event : Mappings.Event ι} (haside : event.Aside) :
    σ.process event = (σ.files.step event).map fun files => { σ with files } := by
  cases event with
  | mapFile path answers => exact haside.elim
  | mapSharedMemory name size isOwner answers => exact haside.elim
  | unmapFile mappedPtr => exact haside.elim
  | _ => rfl

section

variable [DecidableEq κ]

theorem keeper_put (σ : FileReaders ι κ) (id : κ) (slot : Option FileReader) (o : Option ℕ) :
    (σ.put id slot o).keeper =
      Function.update σ.keeper (.inl id) (slot.bind FileReader.entry) := by
  funext k
  rcases k with id' | p
  · by_cases hid : id' = id
    · subst hid
      simp [keeper, entry, put]
    · have hne : (Sum.inl id' : κ ⊕ ℕ) ≠ .inl id := fun heq => hid (Sum.inl.inj heq)
      rw [Function.update_of_ne hne]
      simp [keeper, entry, put, Function.update_of_ne hid]
  · rfl

/-- A reader comes, goes or changes, and the files change, but not what the others have of them. -/
theorem Reads.put (h : σ.Reads) (slot : Option FileReader) (hfiles : files'.Sturdy)
    (hkeeps : ∀ id' p, id' ≠ id → σ.entry id' = some p → σ.files.Keeps files' p)
    (hreading : ∀ r, slot = some r → Reading files' r o) (habsent : slot = none → o = none) :
    Reads ({ σ with files := files' }.put id slot o) where
  files := hfiles
  reading id' r hr := by
    show Reading files' r (Function.update σ.origin id o id')
    replace hr : Function.update σ.readers id slot id' = some r := hr
    by_cases hid : id' = id
    · subst hid
      rw [Function.update_self] at hr ⊢
      exact hreading r hr
    · rw [Function.update_of_ne hid] at hr ⊢
      exact (h.reading id' r hr).keeps fun p hp =>
        hkeeps id' p hid ((entry_of_readers hr).trans hp)
  absent id' hr := by
    show Function.update σ.origin id o id' = none
    replace hr : Function.update σ.readers id slot id' = none := hr
    by_cases hid : id' = id
    · subst hid
      rw [Function.update_self] at hr ⊢
      exact habsent hr
    · rw [Function.update_of_ne hid] at hr ⊢
      exact h.absent id' hr

/-- The same, with the files as they are. -/
theorem Reads.put_reader (h : σ.Reads) {slot : Option FileReader}
    (hreading : ∀ r, slot = some r → Reading σ.files r o) (habsent : slot = none → o = none) :
    Reads (σ.put id slot o) :=
  h.put slot h.files (fun _ _ _ _ => .of_mappings rfl rfl) hreading habsent

/-- The keeper of an entry stays the same while its reader has the same entry. -/
theorem Kept.put_same (h : σ.Kept) (slot : Option FileReader)
    (hentry : slot.bind FileReader.entry = σ.entry id)
    (hreading : ∀ r, slot = some r → Reading σ.files r o) (habsent : slot = none → o = none) :
    Kept (σ.put id slot o) := by
  refine ⟨h.put_reader hreading habsent, ?_⟩
  have hsame : Function.update σ.keeper (.inl id) (slot.bind FileReader.entry) = σ.keeper := by
    rw [hentry]
    exact Function.update_eq_self _ _
  rw [keeper_put, hsame]
  exact h.entered

/-! ### Steps -/

/-- The cursor of a reader moves. -/
theorem Kept.use (h : σ.Kept) (hr : σ.readers id = some r) (hdata : r'.data = r.data)
    (hsize : r'.dataSize = r.dataSize) (htype : r'.storageType = r.storageType) :
    Kept { σ with readers := Function.update σ.readers id (some r') } := by
  have hput : { σ with readers := Function.update σ.readers id (some r') } =
      σ.put id (some r') (σ.origin id) := by
    rw [FileReaders.put, Function.update_eq_self]
  have hentry : r'.entry = r.entry := by rw [FileReader.entry, FileReader.entry, hdata, htype]
  rw [hput]
  apply h.put_same (some r')
  · exact hentry.trans (entry_of_readers hr).symm
  · intro r'' heq
    obtain rfl := Option.some.inj heq
    exact (h.reading id r hr).congr hdata hsize htype
  · exact fun heq => absurd heq (Option.some_ne_none r')

/-- A reader is destroyed, and gives back what it has. -/
theorem Kept.destroy [DecidableEq ι] (h : σ.Kept) (hr : σ.readers id = some r) :
    Kept ({ σ with files := giveBack σ.files r }.put id none none) := by
  unfold FileReaders.giveBack
  have hentry := entry_of_readers hr
  rcases hmapped : r.entry with _ | p
  · apply h.put_same none
    · rw [hentry, hmapped]
      rfl
    · exact fun _ heq => absurd heq.symm (Option.some_ne_none _)
    · exact fun _ => rfl
  · have hkeeper : σ.keeper (.inl id) = some p := hentry.trans hmapped
    refine ⟨h.put none (h.files.unmapFile p) ?_
      (fun _ heq => absurd heq.symm (Option.some_ne_none _)) fun _ => rfl, ?_⟩
    · intro id' q hid hq
      apply h.files.accounted.keeps_unmapFile
      rintro rfl
      have hkeeper' : σ.keeper (.inl id') = some p := hq
      exact hid (Sum.inl.inj (h.entered.unique hkeeper' hkeeper))
    · rw [keeper_put]
      exact h.entered.release hkeeper (Mappings.unmapFile_self σ.files p)

/-- A reader is moved to a place where there is none. -/
theorem Kept.move (h : σ.Kept) {source : κ} {other : FileReader} (hid : σ.readers id = none)
    (hother : σ.readers source = some other) :
    Kept ((σ.put source (some other.left) none).put id (some other) (σ.origin source)) := by
  have hne : (Sum.inl id : κ ⊕ ℕ) ≠ .inl source := by
    intro heq
    obtain rfl := Sum.inl.inj heq
    rw [hid] at hother
    cases hother
  have hempty : σ.keeper (.inl id) = none := by
    show σ.entry id = none
    rw [entry, hid]
    rfl
  have hkeeper : σ.keeper (.inl source) = other.entry := entry_of_readers hother
  have hleft : Reads (σ.put source (some other.left) none) := by
    apply h.put_reader
    · intro r heq
      obtain rfl := Option.some.inj heq
      exact .of_none rfl
    · exact fun _ => rfl
  refine ⟨hleft.put_reader ?_ fun heq => absurd heq (Option.some_ne_none other), ?_⟩
  · intro r heq
    obtain rfl := Option.some.inj heq
    exact h.reading source other hother
  · have hmoved := h.entered.move hne hempty
    rw [hkeeper, Function.update_comm hne] at hmoved
    rw [keeper_put, keeper_put]
    exact hmoved

variable [DecidableEq ι]

/-- A reader is assigned another, and gives back what it had. -/
theorem Kept.moveAssign (h : σ.Kept) {target source : κ} {this other : FileReader}
    (hthis : σ.readers target = some this) (hother : σ.readers source = some other)
    (hne : target ≠ source) :
    Kept ((({ σ with files := giveBack σ.files this }.put source (some other.left) none).put
      target (some other) (σ.origin source))) := by
  -- as if the target were destroyed, and another constructed in its place
  have hgone : ({ σ with files := giveBack σ.files this }.put target none none).readers target =
      none := by
    show Function.update σ.readers target none target = none
    exact Function.update_self _ _ _
  have hstays : ({ σ with files := giveBack σ.files this }.put target none none).readers source =
      some other := by
    show Function.update σ.readers target none source = some other
    rw [Function.update_of_ne hne.symm, hother]
  have hmoved := (h.destroy hthis).move hgone hstays
  have horigin : Function.update σ.origin target none source = σ.origin source :=
    Function.update_of_ne hne.symm none σ.origin
  unfold FileReaders.put at hmoved ⊢
  dsimp only at hmoved ⊢
  rw [horigin, Function.update_comm hne, Function.update_idem, Function.update_comm hne,
    Function.update_idem] at hmoved
  exact hmoved

/-- A reader is created from a file. -/
theorem Kept.createFromFile (h : σ.Kept) (hid : σ.readers id = none) (path : String)
    (answers : Answers) : Kept (σ.createFromFile id path answers) := by
  have hfiles := h.files.mapFile path answers
  unfold FileReaders.createFromFile
  rcases σ.files.mapFile_cases path answers with
    ⟨message, k, hmap, hmappings⟩ | ⟨fd, address, inode, k, hmap, hname, hadds⟩
  · rw [hmap] at hfiles ⊢
    exact h.fails hfiles hmappings
  · rw [hmap] at hfiles ⊢
    dsimp only
    rw [hname]
    have hempty : σ.keeper (.inl id) = none := by
      show σ.entry id = none
      rw [entry, hid]
      rfl
    have hnone := hadds.not_entered h.files.accounted
    refine ⟨h.put _ hfiles (fun _ _ _ _ => hadds.keeps h.files.accounted) ?_
      fun heq => absurd heq (Option.some_ne_none _), ?_⟩
    · intro r heq
      obtain rfl := Option.some.inj heq
      refine ⟨inode, fd, rfl, Function.update_self _ _ _, ?_⟩
      show _ ∈ k.mappings
      rw [hadds.mappings]
      exact List.mem_cons_self
    · rw [keeper_put]
      exact h.entered.acquire hempty hnone rfl

/-- What an event must not do to the files. -/
def Careful (σ : FileReaders ι κ) : Event ι κ → Prop
  | .process event => σ.files.Careful event
  | _ => True

/-- The rest of the program does something. -/
theorem Kept.process (h : σ.Kept) {event : Mappings.Event ι} (hcareful : σ.files.Careful event)
    (hstep : σ.process event = some σ') : σ'.Kept := by
  by_cases haside : event.Aside
  · rw [process_of_aside haside] at hstep
    obtain ⟨files, hfiles, rfl⟩ := Option.map_eq_some_iff.mp hstep
    obtain ⟨hentries, hkeeps⟩ := h.files.accounted.step_keeps haside hfiles
    exact ⟨h.frame (h.files.step hcareful hfiles) fun _ p _ => hkeeps p,
      h.entered.congr hentries⟩
  cases event with
  | mapFile path answers =>
    have hfiles := h.files.mapFile path answers
    unfold FileReaders.process at hstep
    dsimp only at hstep
    rcases σ.files.mapFile_cases path answers with
      ⟨message, k, hmap, hmappings⟩ | ⟨fd, address, inode, k, hmap, -, hadds⟩
    · rw [hmap] at hfiles hstep
      obtain rfl := Option.some.inj hstep
      exact h.fails hfiles hmappings
    · rw [hmap] at hfiles hstep
      obtain rfl := Option.some.inj hstep
      exact h.grants hadds hfiles
  | mapSharedMemory name size isOwner answers =>
    have hfiles := h.files.step hcareful rfl
    unfold FileReaders.process at hstep
    dsimp only at hstep
    rcases σ.files.mapSharedMemory_cases name size isOwner answers with
      ⟨message, k, hmap, hmappings⟩ | ⟨fd, v, k, hmap, hadds⟩
    · rw [hmap] at hfiles hstep
      obtain rfl := Option.some.inj hstep
      exact h.fails hfiles hmappings
    · rw [hmap] at hfiles hstep
      obtain rfl := Option.some.inj hstep
      exact h.grants hadds hfiles
  | unmapFile mappedPtr =>
    unfold FileReaders.process at hstep
    dsimp only at hstep
    split_ifs at hstep with hcaller
    obtain rfl := Option.some.inj hstep
    have hkeeper : σ.keeper (.inr mappedPtr) = some mappedPtr := if_pos hcaller
    refine ⟨h.frame (h.files.unmapFile mappedPtr) ?_, ?_⟩
    · intro id p hp
      apply h.files.accounted.keeps_unmapFile
      rintro rfl
      have hkeeper' : σ.keeper (.inl id) = some mappedPtr := hp
      cases h.entered.unique hkeeper' hkeeper
    · rw [keeper_callers]
      exact h.entered.release hkeeper (Mappings.unmapFile_self σ.files mappedPtr)
  | _ => exact absurd trivial haside

theorem Kept.step (h : σ.Kept) {event : Event ι κ} (hcareful : σ.Careful event)
    (hstep : σ.step event = some σ') : σ'.Kept := by
  cases event with
  | process event => exact h.process hcareful hstep
  | createFromFile id path answers =>
    unfold FileReaders.step at hstep
    rcases hid : σ.readers id with _ | r
    · simp only [hid] at hstep
      obtain rfl := Option.some.inj hstep
      exact h.createFromFile hid path answers
    · simp only [hid] at hstep
      cases hstep
  | streamFromFile id path answers =>
    unfold FileReaders.step at hstep
    rcases hid : σ.readers id with _ | r
    · simp only [hid] at hstep
      split_ifs at hstep
      · obtain rfl := Option.some.inj hstep
        exact h
      · obtain rfl := Option.some.inj hstep
        exact h.createFromFile hid path answers
    · simp only [hid] at hstep
      cases hstep
  | construct id bytes isVector =>
    unfold FileReaders.step at hstep
    rcases hid : σ.readers id with _ | r
    · simp only [hid] at hstep
      obtain rfl := Option.some.inj hstep
      have hnone : (FileReader.ofMemory bytes
          (if isVector then .owningVector else .nonOwning)).entry = none := by
        cases isVector with
        | true => rfl
        | false => rfl
      apply h.put_same
      · show FileReader.entry _ = σ.entry id
        rw [hnone, entry, hid]
        rfl
      · intro r heq
        obtain rfl := Option.some.inj heq
        exact .of_none hnone
      · exact fun _ => rfl
    · simp only [hid] at hstep
      cases hstep
  | moveConstruct id source =>
    unfold FileReaders.step at hstep
    rcases hid : σ.readers id with _ | r
    · rcases hother : σ.readers source with _ | other
      · simp only [hid, hother] at hstep
        cases hstep
      · simp only [hid, hother] at hstep
        obtain rfl := Option.some.inj hstep
        exact h.move hid hother
    · simp only [hid] at hstep
      cases hstep
  | moveAssign target source =>
    unfold FileReaders.step at hstep
    rcases hthis : σ.readers target with _ | this
    · simp only [hthis] at hstep
      cases hstep
    · rcases hother : σ.readers source with _ | other
      · simp only [hthis, hother] at hstep
        cases hstep
      · simp only [hthis, hother] at hstep
        split_ifs at hstep with hsame
        · obtain rfl := Option.some.inj hstep
          exact h
        · obtain rfl := Option.some.inj hstep
          exact h.moveAssign hthis hother hsame
  | destroy id =>
    unfold FileReaders.step at hstep
    rcases hid : σ.readers id with _ | r
    · simp only [hid] at hstep
      cases hstep
    · simp only [hid] at hstep
      obtain rfl := Option.some.inj hstep
      exact h.destroy hid
  | read id size =>
    unfold FileReaders.step at hstep
    dsimp only at hstep
    split at hstep
    · rename_i result r' hbind
      obtain rfl := Option.some.inj hstep
      obtain ⟨r, hid, hread⟩ := Option.bind_eq_some_iff.mp hbind
      obtain ⟨hdata, hsize, htype⟩ := FileReader.of_read hread
      exact h.use hid hdata hsize htype
    · cases hstep
  | skip id amount =>
    obtain ⟨r, hid, rfl⟩ := Option.map_eq_some_iff.mp hstep
    exact h.use hid rfl rfl rfl
  | seek id pos =>
    obtain ⟨r, hid, rfl⟩ := Option.map_eq_some_iff.mp hstep
    exact h.use hid rfl rfl rfl

/-! ### Runs -/

/-- What the readers and the rest of the program have. -/
structure Served (σ : FileReaders ι κ) : Prop where
  /-- Every mapping and every descriptor has one owner: a region, an entry or an open file. -/
  exact : σ.files.Exact
  /-- Every entry has a keeper, and nobody keeps an entry that is not there. -/
  entries : ∀ p, σ.files.mappedFiles p ≠ none ↔ σ.callers p ∨ ∃ id, σ.entry id = some p
  unshared : ∀ id id' p, σ.entry id = some p → σ.entry id' = some p → id = id'
  unmixed : ∀ id p, σ.entry id = some p → σ.callers p = false
  originated : ∀ id p, σ.entry id = some p → ∃ inode, σ.origin id = some inode
  /-- A reader of a file does what a reader over the bytes of the file does. -/
  reads : ∀ id r inode, σ.readers id = some r → σ.origin id = some inode →
    ReadsFile σ.files.posix r inode

theorem Kept.served (h : σ.Kept) : σ.Served where
  exact := h.files.accounted.exact
  entries p := by
    rw [h.entered.mem_iff]
    constructor
    · rintro ⟨id | q, hk⟩
      · exact .inr ⟨id, hk⟩
      · replace hk : (if σ.callers q then some q else none) = some p := hk
        split_ifs at hk with hcaller
        obtain rfl := Option.some.inj hk
        exact .inl hcaller
    · rintro (hcaller | ⟨id, hid⟩)
      · exact ⟨.inr p, if_pos hcaller⟩
      · exact ⟨.inl id, hid⟩
  unshared id id' p hid hid' :=
    Sum.inl.inj (h.entered.unique (i := Sum.inl id) (j := .inl id') hid hid')
  unmixed id p hid := by
    by_contra hcaller
    have hkeeper : σ.keeper (.inr p) = some p := if_pos (Bool.eq_true_of_not_eq_false hcaller)
    cases h.entered.unique (i := Sum.inl id) hid hkeeper
  originated id p hid := by
    obtain ⟨r, hr, hentry⟩ := Option.bind_eq_some_iff.mp hid
    have hreading := h.reading id r hr
    rw [Reading, hentry] at hreading
    obtain ⟨inode, -, horigin, -⟩ := hreading
    exact ⟨inode, horigin⟩
  reads id r inode hr horigin := by
    have hreading := h.reading id r hr
    rw [horigin] at hreading
    exact hreading.readsFile h.files

end

end FileReaders

end IACore
