import Nachos.Bin.Coff2noff

/-!
# When the conversion succeeds

The test for contiguous uninitialised sections is the wrong way round: sections that follow each
other are refused, and others are merged into one segment. A second `.text` section and a second
uninitialised section of the same name are not refused. `Served` says which files are nevertheless
converted, or refused, as they should be.
-/

namespace Nachos.Bin

open Userprog Mips

/-! ### What a conversion should be -/

/-- The sections of a COFF file. -/
def sections (file : List Byte) : List Scnhdr :=
  let bytes := (file.drop (filehdrSize + aouthdrSize)).take
    ((Machine.readShort (buffer file) 2).toNat * scnhdrSize)
  (List.range (Machine.readShort (buffer file) 2).toNat).map (scnhdr bytes)

/-- Those that are not empty. -/
def nonempty (l : List Scnhdr) : List Scnhdr := l.filter (·.sSize ≠ 0)

/-- The raw data of a section is inside the file. -/
def Scnhdr.Inside (file : List Byte) (s : Scnhdr) : Prop :=
  0 ≤ s.sScnptr.toInt ∧ 0 ≤ s.sSize.toInt ∧ s.sScnptr.toNat + s.sSize.toNat ≤ file.length

/-- The name of a section is one of the five, and the raw data of an initialised one is inside the
file. -/
structure Scnhdr.Known (file : List Byte) (s : Scnhdr) : Prop where
  named : s.isText ∨ s.isData ∨ s.isBss
  inside : s.isText ∨ s.isData → s.Inside file

/-- A little-endian MIPS OMAGIC COFF file with known sections. -/
structure Coff (file : List Byte) : Prop where
  mipsel : Machine.readShort (buffer file) 0 = MIPSELMAGIC
  omagic : Machine.readShort (buffer file) filehdrSize = OMAGIC
  headers : filehdrSize + aouthdrSize +
    (Machine.readShort (buffer file) 2).toNat * scnhdrSize ≤ file.length
  known : ∀ s ∈ nonempty (sections file), s.Known file

/-- The sections can be converted. -/
structure Convertible (l : List Scnhdr) : Prop where
  /-- At most one of `.data` and `.rdata`. -/
  oneData : ∀ s ∈ l, ∀ s' ∈ l, ¬ (s.name = data ∧ s'.name = rdata)
  /-- No name twice. -/
  once : (l.map Scnhdr.name).Nodup
  /-- Of `.bss` and `.sbss`, the later one starts where the earlier one ends. -/
  contiguous : l.Pairwise fun s s' =>
    s.name = bss ∧ s'.name = sbss ∨ s.name = sbss ∧ s'.name = bss → s'.sPaddr = s.sPaddr + s.sSize

/-- An address lies in a range. -/
def Covers (virtualAddr size : Word) (a : ℕ) : Prop :=
  virtualAddr.toNat ≤ a ∧ a < virtualAddr.toNat + size.toNat

/-- A segment of the header records a section, whose bytes are in the NOFF file where it says. -/
structure Recorded (file noff : List Byte) (segment : Segment) (s : Scnhdr) : Prop where
  virtualAddr : segment.virtualAddr = s.sPaddr
  size : segment.size = s.sSize
  bytes : (noff.drop segment.inFileAddr.toNat).take s.sSize.toNat =
    (file.drop s.sScnptr.toNat).take s.sSize.toNat

/-- The NOFF file holds the sections of the COFF file. -/
structure Holds (file noff : List Byte) (noffH : NoffHeader) : Prop where
  magic : noffH.noffMagic = NOFFMAGIC
  code : ∀ s ∈ nonempty (sections file), s.isText → Recorded file noff noffH.code s
  initData : ∀ s ∈ nonempty (sections file), s.isData → Recorded file noff noffH.initData s
  uninitData : ∀ a, Covers noffH.uninitData.virtualAddr noffH.uninitData.size a ↔
    ∃ s ∈ nonempty (sections file), s.isBss ∧ Covers s.sPaddr s.sSize a

/-- The conversion succeeds exactly when it can, and then the NOFF file holds the sections,
whatever the loader finds on its stack. -/
def ConvertsAsItShould (stack : NoffHeader) (file : List Byte) : Prop :=
  ((∃ noff, main stack file = .ok noff) ↔ Convertible (nonempty (sections file))) ∧
    ∀ noff, main stack file = .ok noff → ∀ mem, Holds file noff (readHeader noff mem)

/-! ### When it is -/

/-- Some section after the first starts where the ones before it end, taken as one segment. -/
def Abuts (virtualAddr size : Word) : List Scnhdr → Prop
  | [] => False
  | s :: rest =>
    if size ≠ 0 then s.sPaddr = virtualAddr + size ∨ Abuts virtualAddr (size + s.sSize) rest
    else Abuts s.sPaddr s.sSize rest

/-- The files that are converted, or refused, as they should be: those with two sections of
initialised data, those with at most one `.text` and at most one uninitialised section, and those
in which a name comes twice and an uninitialised section abuts on those before it. -/
def Served (l : List Scnhdr) : Prop :=
  2 ≤ (l.filter Scnhdr.isData).length ∨
  (l.filter Scnhdr.isText).length ≤ 1 ∧ (l.filter Scnhdr.isBss).length ≤ 1 ∨
  (2 ≤ (l.filter Scnhdr.isText).length ∨ 2 ≤ (l.filter (·.name = bss)).length ∨
    2 ≤ (l.filter (·.name = sbss)).length) ∧ Abuts 0 0 (l.filter Scnhdr.isBss)

/-! ### The header -/

lemma readLong_wordBytes (w : Word) :
    w.extractLsb' 24 8 ++ w.extractLsb' 16 8 ++ w.extractLsb' 8 8 ++ w.extractLsb' 0 8 = w := by
  rw [BitVec.extractLsb'_append_extractLsb'_eq_extractLsb' (by rfl),
    BitVec.extractLsb'_append_extractLsb'_eq_extractLsb' (by rfl),
    BitVec.extractLsb'_append_extractLsb'_eq_extractLsb' (by rfl)]
  exact BitVec.extractLsb'_eq_self

/-- The loader reads back the header that was written. -/
theorem readHeader_headerBytes (noffH : NoffHeader) (body : List Byte) (mem : ℕ → Byte) :
    readHeader (headerBytes noffH ++ body) mem = noffH := by
  obtain ⟨noffMagic, ⟨va, fa, size⟩, ⟨va', fa', size'⟩, ⟨va'', fa'', size''⟩⟩ := noffH
  simp only [readHeader, NoffHeader.mk.injEq, Segment.mk.injEq]
  refine ⟨readLong_wordBytes _, ⟨readLong_wordBytes _, readLong_wordBytes _, readLong_wordBytes _⟩,
    ⟨readLong_wordBytes _, readLong_wordBytes _, readLong_wordBytes _⟩,
    readLong_wordBytes _, readLong_wordBytes _, readLong_wordBytes _⟩

lemma length_headerBytes (noffH : NoffHeader) : (headerBytes noffH).length = noffHeaderSize := rfl

/-! ### One section -/

section Names

variable {s : Scnhdr}

lemma isText_iff : s.isText ↔ s.name = text := by simp [Scnhdr.isText]
lemma isData_iff : s.isData ↔ s.name = data ∨ s.name = rdata := by simp [Scnhdr.isData]
lemma isBss_iff : s.isBss ↔ s.name = bss ∨ s.name = sbss := by simp [Scnhdr.isBss]

lemma isData_of_isText (h : s.isText) : s.isData = false := by
  rw [isText_iff] at h
  rw [Scnhdr.isData, h]
  decide

lemma isBss_of_isText (h : s.isText) : s.isBss = false := by
  rw [isText_iff] at h
  rw [Scnhdr.isBss, h]
  decide

lemma isBss_of_isData (h : s.isData) : s.isBss = false := by
  rw [isData_iff] at h
  rcases h with h | h
  · rw [Scnhdr.isBss, h]
    decide
  · rw [Scnhdr.isBss, h]
    decide

lemma isText_of_isData (h : s.isData) : s.isText = false := by
  cases ht : s.isText with
  | false => rfl
  | true => rw [isData_of_isText ht] at h; cases h

lemma isText_of_isBss (h : s.isBss) : s.isText = false := by
  cases ht : s.isText with
  | false => rfl
  | true => rw [isBss_of_isText ht] at h; cases h

lemma isData_of_isBss (h : s.isBss) : s.isData = false := by
  cases hd : s.isData with
  | false => rfl
  | true => rw [isBss_of_isData hd] at h; cases h

end Names

/-- The bytes of a section. -/
def raw (file : List Byte) (s : Scnhdr) : List Byte :=
  (file.drop s.sScnptr.toNat).take s.sSize.toNat

variable {file : List Byte} {s : Scnhdr} {st st' : State}

/-- The state after the copy of a section. -/
def State.copied (file : List Byte) (s : Scnhdr) (st : State) : State :=
  { st with
    inNoffFile := st.inNoffFile + s.sSize
    position := s.sScnptr.toNat + s.sSize.toNat
    body := st.body ++ raw file s }

lemma copySection_eq (h : s.Inside file) :
    copySection file s st = .ok (⟨s.sPaddr, st.inNoffFile, s.sSize⟩, st.copied file s) := by
  obtain ⟨hptr, hsize, hend⟩ := h
  unfold copySection lseek read
  simp only [not_lt.mpr hptr, not_lt.mpr hsize, hend, if_true, if_false]
  rfl

lemma loadSection_text (hne : s.sSize ≠ 0) (ht : s.isText) (h : s.Inside file) :
    loadSection file s st = .ok { st.copied file s with
      noffH := { st.noffH with code := ⟨s.sPaddr, st.inNoffFile, s.sSize⟩ } } := by
  unfold loadSection
  simp only [hne, ht, if_true, if_false, copySection_eq h]
  rfl

lemma loadSection_data (hne : s.sSize ≠ 0) (hd : s.isData) (h : s.Inside file) :
    loadSection file s st = if st.noffH.initData.size ≠ 0 then .error .dataAndRdata else
      .ok { st.copied file s with
        noffH := { st.noffH with initData := ⟨s.sPaddr, st.inNoffFile, s.sSize⟩ } } := by
  unfold loadSection
  simp only [hne, isText_of_isData hd, hd, if_true, if_false, copySection_eq h,
    Bool.false_eq_true]
  rfl

/-- The uninitialised segment with one more section. -/
def merged (segment : Segment) (s : Scnhdr) : Segment :=
  if segment.size ≠ 0 then { segment with size := segment.size + s.sSize }
  else { segment with virtualAddr := s.sPaddr, size := s.sSize }

lemma loadSection_bss (hne : s.sSize ≠ 0) (hb : s.isBss) :
    loadSection file s st =
      if st.noffH.uninitData.size ≠ 0 ∧
          s.sPaddr = st.noffH.uninitData.virtualAddr + st.noffH.uninitData.size then
        .error .bssAndSbss
      else .ok { st with noffH := { st.noffH with uninitData := merged st.noffH.uninitData s } } := by
  unfold loadSection merged
  simp only [hne, isText_of_isBss hb, isData_of_isBss hb, hb, if_true, if_false,
    Bool.false_eq_true]
  by_cases hz : st.noffH.uninitData.size = 0
  · rw [if_neg (not_not.mpr hz), if_neg (fun h => h.1 hz), if_neg (not_not.mpr hz)]
  · by_cases hadj : s.sPaddr = st.noffH.uninitData.virtualAddr + st.noffH.uninitData.size
    · rw [if_pos hz, if_pos hadj, if_pos ⟨hz, hadj⟩]
    · rw [if_pos hz, if_neg hadj, if_neg (fun h => hadj h.2), if_pos hz]

/-- The loop goes over an empty section. -/
lemma loadSections_nonempty {l : List Scnhdr} :
    loadSections file l st = loadSections file (nonempty l) st := by
  induction l generalizing st with
  | nil => rfl
  | cons s l ih =>
    by_cases hz : s.sSize = 0
    · rw [nonempty, List.filter_cons_of_neg (by simp [hz]), loadSections, loadSection, if_pos hz]
      exact ih
    · rw [nonempty, List.filter_cons_of_pos (by simpa using hz), loadSections, loadSections]
      cases loadSection file s st with
      | error f => rfl
      | ok st' => exact ih

/-! ### Success -/

/-- The sections the loop is about. -/
def Ready (file : List Byte) (l : List Scnhdr) : Prop := ∀ s ∈ l, s.sSize ≠ 0 ∧ s.Known file

/-- **When the loop goes through**: there is one section of initialised data at most, and no
uninitialised section abuts on those before it. -/
theorem loadSections_ok_iff {l : List Scnhdr} (hl : Ready file l) :
    (∃ st', loadSections file l st = .ok st') ↔
      (l.filter Scnhdr.isData).length + (if st.noffH.initData.size = 0 then 0 else 1) ≤ 1 ∧
        ¬ Abuts st.noffH.uninitData.virtualAddr st.noffH.uninitData.size
          (l.filter Scnhdr.isBss) := by
  induction l generalizing st with
  | nil =>
    refine ⟨fun _ => ⟨?_, fun h => h⟩, fun _ => ⟨st, rfl⟩⟩
    simp only [List.filter_nil, List.length_nil]
    split <;> omega
  | cons s l ih =>
    obtain ⟨⟨hne, hk⟩, hrest⟩ := List.forall_mem_cons.mp hl
    rw [loadSections]
    rcases hk.named with ht | hd | hb
    · rw [loadSection_text hne ht (hk.inside (.inl ht)),
        List.filter_cons_of_neg (by simp [isData_of_isText ht]),
        List.filter_cons_of_neg (by simp [isBss_of_isText ht])]
      exact ih hrest
    · rw [loadSection_data hne hd (hk.inside (.inr hd)), List.filter_cons_of_pos hd,
        List.filter_cons_of_neg (by simp [isBss_of_isData hd]), List.length_cons]
      by_cases hz : st.noffH.initData.size = 0
      · rw [if_neg (not_not.mpr hz), if_pos hz]
        simp only
        rw [ih hrest]
        simp only [hne, if_false, Nat.add_zero]
      · rw [if_pos hz, if_neg hz]
        exact ⟨fun ⟨_, h⟩ => (by cases h), fun ⟨h, _⟩ => (by omega)⟩
    · rw [loadSection_bss hne hb, List.filter_cons_of_neg (by simp [isData_of_isBss hb]),
        List.filter_cons_of_pos hb, Abuts]
      by_cases hz : st.noffH.uninitData.size = 0
      · rw [if_neg (by simp [hz]), if_neg (not_not.mpr hz)]
        simp only
        rw [ih hrest]
        simp only [merged, hz, ne_eq, not_true_eq_false, if_false]
      · rw [if_pos hz]
        by_cases hadj : s.sPaddr = st.noffH.uninitData.virtualAddr + st.noffH.uninitData.size
        · rw [if_pos ⟨hz, hadj⟩]
          exact ⟨fun ⟨_, h⟩ => (by cases h), fun ⟨_, h⟩ => absurd (.inl hadj) h⟩
        · rw [if_neg (fun h => hadj h.2)]
          simp only
          rw [ih hrest]
          simp only [merged, hz, ne_eq, not_false_eq_true, if_true, hadj, false_or]

/-! ### What is recorded -/

/-- A segment records a section, whose bytes are among those that have been written. -/
structure Placed (file body : List Byte) (segment : Segment) (s : Scnhdr) : Prop where
  virtualAddr : segment.virtualAddr = s.sPaddr
  size : segment.size = s.sSize
  bytes : ∃ before after, body = before ++ raw file s ++ after ∧
    segment.inFileAddr.toNat = noffHeaderSize + before.length

lemma Placed.append {body more : List Byte} {segment : Segment} (h : Placed file body segment s) :
    Placed file (body ++ more) segment s := by
  obtain ⟨virtualAddr, size, before, after, rfl, haddr⟩ := h
  exact ⟨virtualAddr, size, before, after ++ more, by rw [List.append_assoc _ after], haddr⟩

lemma length_raw (h : s.Inside file) : (raw file s).length = s.sSize.toNat := by
  have := h.2.2
  rw [raw, List.length_take, List.length_drop]
  omega

/-- The bytes of a section that is placed are where the segment says. -/
lemma Placed.recorded {body : List Byte} {segment : Segment} (hin : s.Inside file)
    (h : Placed file body segment s) (noffH : NoffHeader) :
    Recorded file (headerBytes noffH ++ body) segment s := by
  obtain ⟨virtualAddr, size, before, after, rfl, haddr⟩ := h
  refine ⟨virtualAddr, size, ?_⟩
  have hsplit : headerBytes noffH ++ (before ++ raw file s ++ after) =
      (headerBytes noffH ++ before) ++ (raw file s ++ after) := by simp only [List.append_assoc]
  have hlen : noffHeaderSize + before.length = (headerBytes noffH ++ before).length := by
    rw [List.length_append, length_headerBytes]
  rw [haddr, hlen, hsplit, List.drop_left, ← length_raw hin, List.take_left, length_raw hin]
  rfl

/-- After the sections `done`: the header records them, if there are few enough. -/
structure Loaded (file : List Byte) (done : List Scnhdr) (st : State) : Prop where
  magic : st.noffH.noffMagic = NOFFMAGIC
  inNoffFile : st.inNoffFile = BitVec.ofNat 32 (noffHeaderSize + st.body.length)
  length : st.body.length ≤
    (2 ^ 31 - 1) * ((done.filter Scnhdr.isText).length + (done.filter Scnhdr.isData).length)
  code : ∀ s ∈ done, s.isText → Placed file st.body st.noffH.code s
  initData : ∀ s ∈ done, s.isData → Placed file st.body st.noffH.initData s
  noInitData : (done.filter Scnhdr.isData) = [] → st.noffH.initData.size = 0
  uninitData : ∀ a, Covers st.noffH.uninitData.virtualAddr st.noffH.uninitData.size a ↔
    ∃ s ∈ done, s.isBss ∧ Covers s.sPaddr s.sSize a
  noUninitData : (done.filter Scnhdr.isBss) = [] → st.noffH.uninitData.size = 0

/-- One section of each kind at most. -/
structure Few (l : List Scnhdr) : Prop where
  text : (l.filter Scnhdr.isText).length ≤ 1
  data : (l.filter Scnhdr.isData).length ≤ 1
  bss : (l.filter Scnhdr.isBss).length ≤ 1

lemma Few.left {l l' : List Scnhdr} (h : Few (l ++ l')) : Few l := by
  obtain ⟨ht, hd, hb⟩ := h
  simp only [List.filter_append, List.length_append] at ht hd hb
  exact ⟨by omega, by omega, by omega⟩

/-- Before the last section of a kind there is none. -/
lemma filter_eq_nil_of_snoc {p : Scnhdr → Bool} {done : List Scnhdr} (hp : p s)
    (h : ((done ++ [s]).filter p).length ≤ 1) : done.filter p = [] := by
  rw [List.filter_append, List.filter_cons_of_pos hp, List.length_append, List.filter_nil,
    List.length_singleton] at h
  exact List.length_eq_zero_iff.mp (by omega)

lemma not_of_filter_eq_nil {p : Scnhdr → Bool} {done : List Scnhdr} {q : Scnhdr}
    (h : done.filter p = []) (hq : q ∈ done) : ¬ p q = true :=
  List.filter_eq_nil_iff.mp h q hq

variable {done : List Scnhdr}

/-- The place of a section that is copied next. -/
lemma Loaded.placed (h : Loaded file done st) (hfew : Few (done ++ [s]))
    (hinit : s.isText ∨ s.isData) :
    Placed file (st.copied file s).body ⟨s.sPaddr, st.inNoffFile, s.sSize⟩ s := by
  refine ⟨rfl, rfl, st.body, [], by rw [List.append_nil]; rfl, ?_⟩
  have hlen := h.length
  have hcount : (done.filter Scnhdr.isText).length + (done.filter Scnhdr.isData).length ≤ 1 := by
    rcases hinit with hs | hs
    · rw [filter_eq_nil_of_snoc hs hfew.text]
      simpa using hfew.left.data
    · rw [filter_eq_nil_of_snoc hs hfew.data]
      simpa using hfew.left.text
  have hbound : st.body.length ≤ 2 ^ 31 - 1 := hlen.trans (by omega)
  rw [h.inNoffFile, BitVec.toNat_ofNat]
  refine Nat.mod_eq_of_lt ?_
  simp only [noffHeaderSize]
  omega

lemma length_raw_le (hin : s.Inside file) : (raw file s).length ≤ 2 ^ 31 - 1 := by
  have hpos := hin.2.1
  rw [length_raw hin]
  rw [BitVec.toInt_eq_toNat_cond] at hpos
  split at hpos <;> omega

lemma inNoffFile_copied (h : Loaded file done st) (hin : s.Inside file) :
    (st.copied file s).inNoffFile =
      BitVec.ofNat 32 (noffHeaderSize + (st.copied file s).body.length) := by
  simp only [State.copied, h.inNoffFile, List.length_append, length_raw hin]
  rw [← Nat.add_assoc, BitVec.ofNat_add _ s.sSize.toNat, BitVec.ofNat_toNat, BitVec.setWidth_eq]

/-- **One more section.** -/
lemma Loaded.step (h : Loaded file done st) (hne : s.sSize ≠ 0) (hk : s.Known file)
    (hfew : Few (done ++ [s])) (hs : loadSection file s st = .ok st') :
    Loaded file (done ++ [s]) st' := by
  have hold : ∀ {P : Scnhdr → Prop}, (∀ q ∈ done, P q) → P s → ∀ q ∈ done ++ [s], P q := by
    intro P hall hlast q hq
    rcases List.mem_append.mp hq with hq | hq
    · exact hall q hq
    · exact List.mem_singleton.mp hq ▸ hlast
  rcases hk.named with ht | hd | hb
  · have hin := hk.inside (.inl ht)
    have hd := isData_of_isText ht
    have hb := isBss_of_isText ht
    rw [loadSection_text hne ht hin] at hs
    cases hs
    refine ⟨h.magic, inNoffFile_copied h hin, ?_, ?_, ?_, ?_, ?_, ?_⟩
    · simp only [State.copied, List.length_append, List.filter_append,
        List.filter_cons_of_pos ht, List.filter_cons_of_neg (by simp [hd] : ¬ s.isData = true),
        List.filter_nil, List.length_singleton, List.length_nil]
      have := h.length
      have := length_raw_le hin
      omega
    · refine hold (fun q hq hqt => ?_) fun _ => h.placed hfew (.inl ht)
      exact absurd hqt (not_of_filter_eq_nil (filter_eq_nil_of_snoc ht hfew.text) hq)
    · exact hold (fun q hq hqd => (h.initData q hq hqd).append) fun hsd => by
        rw [hd] at hsd; cases hsd
    · intro hnil
      rw [List.filter_append, List.append_eq_nil_iff] at hnil
      exact h.noInitData hnil.1
    · intro a
      rw [h.uninitData a]
      simp [hb]
    · intro hnil
      rw [List.filter_append, List.append_eq_nil_iff] at hnil
      exact h.noUninitData hnil.1
  · have hin := hk.inside (.inr hd)
    have ht := isText_of_isData hd
    have hb := isBss_of_isData hd
    rw [loadSection_data hne hd hin] at hs
    split at hs
    next => cases hs
    cases hs
    refine ⟨h.magic, inNoffFile_copied h hin, ?_, ?_, ?_, ?_, ?_, ?_⟩
    · simp only [State.copied, List.length_append, List.filter_append,
        List.filter_cons_of_pos hd, List.filter_cons_of_neg (by simp [ht] : ¬ s.isText = true),
        List.filter_nil, List.length_singleton, List.length_nil]
      have := h.length
      have := length_raw_le hin
      omega
    · exact hold (fun q hq hqt => (h.code q hq hqt).append) fun hst => by
        rw [ht] at hst; cases hst
    · refine hold (fun q hq hqd => ?_) fun _ => h.placed hfew (.inr hd)
      exact absurd hqd (not_of_filter_eq_nil (filter_eq_nil_of_snoc hd hfew.data) hq)
    · intro hnil
      rw [List.filter_append, List.append_eq_nil_iff, List.filter_cons_of_pos hd] at hnil
      exact absurd hnil.2 (List.cons_ne_nil _ _)
    · intro a
      rw [h.uninitData a]
      simp [hb]
    · intro hnil
      rw [List.filter_append, List.append_eq_nil_iff] at hnil
      exact h.noUninitData hnil.1
  · have ht := isText_of_isBss hb
    have hd := isData_of_isBss hb
    have hnone := filter_eq_nil_of_snoc hb hfew.bss
    have hz := h.noUninitData hnone
    rw [loadSection_bss hne hb, if_neg (fun h => h.1 hz)] at hs
    cases hs
    have hm : merged st.noffH.uninitData s =
        { st.noffH.uninitData with virtualAddr := s.sPaddr, size := s.sSize } :=
      if_neg (not_not.mpr hz)
    refine ⟨h.magic, h.inNoffFile, ?_, ?_, ?_, ?_, ?_, ?_⟩
    · have := h.length
      simpa [List.filter_append, ht, hd] using this
    · exact hold h.code fun hst => by rw [ht] at hst; cases hst
    · exact hold h.initData fun hsd => by rw [hd] at hsd; cases hsd
    · intro hnil
      rw [List.filter_append, List.append_eq_nil_iff] at hnil
      exact h.noInitData hnil.1
    · intro a
      simp only [hm]
      constructor
      · intro ha
        exact ⟨s, by simp, hb, ha⟩
      · rintro ⟨q, hq, hqb, ha⟩
        rcases List.mem_append.mp hq with hq | hq
        · exact absurd hqb (not_of_filter_eq_nil hnone hq)
        · exact List.mem_singleton.mp hq ▸ ha
    · intro hnil
      rw [List.filter_append, List.append_eq_nil_iff, List.filter_cons_of_pos hb] at hnil
      exact absurd hnil.2 (List.cons_ne_nil _ _)

/-- **The header at the end of the loop.** -/
theorem Loaded.loadSections {l : List Scnhdr} (h : Loaded file done st) (hl : Ready file l)
    (hfew : Few (done ++ l)) (hs : loadSections file l st = .ok st') :
    Loaded file (done ++ l) st' := by
  induction l generalizing done st with
  | nil =>
    cases hs
    rwa [List.append_nil]
  | cons s l ih =>
    obtain ⟨⟨hne, hk⟩, hrest⟩ := List.forall_mem_cons.mp hl
    rw [Bin.loadSections] at hs
    split at hs
    next => cases hs
    next st₁ h₁ =>
      rw [← List.singleton_append, ← List.append_assoc] at hfew ⊢
      exact ih (h.step hne hk hfew.left h₁) hrest hfew hs

end Nachos.Bin
