import Mathlib.Data.List.Count
import Nachos.Bin.Conversion
import Nachos.Lib.Except

/-!
# Which files are converted as they should be

Names are counted. A file can be converted when no name comes twice, the sections of initialised
data are one at most, and two uninitialised sections abut; the loop goes through when the
uninitialised ones do not. The two agree exactly on the files of `Served`.
-/

namespace Nachos.Bin

open Lib Userprog Mips

variable {file : List Byte} {l : List Scnhdr}

/-! ### Counting names -/

/-- How many sections have a name. -/
def named (n : List Byte) (l : List Scnhdr) : ℕ := (l.filter (·.name = n)).length

lemma count_name (n : List Byte) : (l.map Scnhdr.name).count n = named n l := by
  rw [named, List.count_eq_length_filter, List.filter_map, List.length_map]
  refine congrArg List.length (List.filter_congr fun s _ => ?_)
  by_cases h : s.name = n <;> simp [h]

lemma length_filter_isText : (l.filter Scnhdr.isText).length = named text l := rfl

/-- The sections of two names. -/
lemma length_filter_or {n n' : List Byte} (hne : n ≠ n') :
    (l.filter fun s => s.name = n ∨ s.name = n').length = named n l + named n' l := by
  induction l with
  | nil => rfl
  | cons s l ih =>
    simp only [named] at ih ⊢
    by_cases h : s.name = n
    · have h' : s.name ≠ n' := fun h' => hne (h ▸ h')
      rw [List.filter_cons_of_pos (by simp [h]), List.filter_cons_of_pos (by simp [h]),
        List.filter_cons_of_neg (by simp [h']), List.length_cons, List.length_cons, ih]
      omega
    · by_cases h' : s.name = n'
      · rw [List.filter_cons_of_pos (by simp [h']), List.filter_cons_of_neg (by simp [h]),
          List.filter_cons_of_pos (by simp [h']), List.length_cons, List.length_cons, ih]
        omega
      · rw [List.filter_cons_of_neg (by simp [h, h']), List.filter_cons_of_neg (by simp [h]),
          List.filter_cons_of_neg (by simp [h']), ih]

lemma length_filter_isData : (l.filter Scnhdr.isData).length = named data l + named rdata l :=
  length_filter_or (by decide)

lemma length_filter_isBss : (l.filter Scnhdr.isBss).length = named bss l + named sbss l :=
  length_filter_or (by decide)

lemma named_pos {n : List Byte} {s : Scnhdr} (hs : s ∈ l) (hn : s.name = n) : 0 < named n l :=
  List.length_pos_of_mem (List.mem_filter.mpr ⟨hs, by simpa using hn⟩)

lemma exists_of_named_pos {n : List Byte} (h : 0 < named n l) : ∃ s ∈ l, s.name = n := by
  obtain ⟨s, hs⟩ := List.exists_mem_of_length_pos h
  obtain ⟨hs, hn⟩ := List.mem_filter.mp hs
  exact ⟨s, hs, by simpa using hn⟩

/-- No name comes twice: none of the five does. -/
lemma nodup_iff (hl : Ready file l) : (l.map Scnhdr.name).Nodup ↔
    named text l ≤ 1 ∧ named data l ≤ 1 ∧ named rdata l ≤ 1 ∧ named bss l ≤ 1 ∧
      named sbss l ≤ 1 := by
  rw [List.nodup_iff_count_le_one]
  simp only [count_name]
  refine ⟨fun h => ⟨h _, h _, h _, h _, h _⟩, fun ⟨ht, hd, hr, hb, hs⟩ n => ?_⟩
  by_contra hn
  obtain ⟨s, hsl, hsn⟩ := exists_of_named_pos (by omega : 0 < named n l)
  rcases (hl s hsl).2.named with h | h | h
  · rw [isText_iff.mp h] at hsn
    exact hn (hsn ▸ ht)
  · rcases isData_iff.mp h with h | h
    · exact hn (hsn ▸ h ▸ hd)
    · exact hn (hsn ▸ h ▸ hr)
  · rcases isBss_iff.mp h with h | h
    · exact hn (hsn ▸ h ▸ hb)
    · exact hn (hsn ▸ h ▸ hs)

/-- There are not both `.data` and `.rdata`. -/
lemma oneData_iff : (∀ s ∈ l, ∀ s' ∈ l, ¬ (s.name = data ∧ s'.name = rdata)) ↔
    named data l = 0 ∨ named rdata l = 0 := by
  constructor
  · intro h
    by_contra hn
    rw [not_or] at hn
    obtain ⟨s, hs, hsn⟩ := exists_of_named_pos (Nat.pos_of_ne_zero hn.1)
    obtain ⟨s', hs', hsn'⟩ := exists_of_named_pos (Nat.pos_of_ne_zero hn.2)
    exact h s hs s' hs' ⟨hsn, hsn'⟩
  · rintro h s hs s' hs' ⟨hn, hn'⟩
    have := named_pos hs hn
    have := named_pos hs' hn'
    omega

/-! ### Uninitialised sections -/

/-- The uninitialised sections are contiguous. -/
def Contiguous (l : List Scnhdr) : Prop :=
  l.Pairwise fun s s' => s.name = bss ∧ s'.name = sbss ∨ s.name = sbss ∧ s'.name = bss →
    s'.sPaddr = s.sPaddr + s.sSize

lemma contiguous_filter : Contiguous l ↔ Contiguous (l.filter Scnhdr.isBss) := by
  unfold Contiguous
  rw [List.pairwise_filter]
  refine List.Pairwise.iff fun s s' => ?_
  constructor
  · exact fun h _ _ hn => h hn
  · intro h hn
    refine h ?_ ?_ hn
    · rcases hn with hn | hn
      · exact isBss_iff.mpr (.inl hn.1)
      · exact isBss_iff.mpr (.inr hn.1)
    · rcases hn with hn | hn
      · exact isBss_iff.mpr (.inr hn.2)
      · exact isBss_iff.mpr (.inl hn.2)

/-- With one uninitialised section at most there is nothing to compare. -/
lemma not_abuts_of_length {u : List Scnhdr} {va : Word} (h : u.length ≤ 1) : ¬ Abuts va 0 u := by
  match u, h with
  | [], _ => exact fun h => h
  | [s], _ =>
    rw [Abuts, if_neg (not_not.mpr rfl)]
    exact fun h => h

lemma contiguous_of_length {u : List Scnhdr} (h : u.length ≤ 1) : Contiguous u := by
  match u, h with
  | [], _ => exact List.Pairwise.nil
  | [s], _ => exact List.pairwise_singleton _ _

/-- Where the loop starts makes no difference. -/
lemma abuts_zero {u : List Scnhdr} {va va' : Word} : Abuts va 0 u ↔ Abuts va' 0 u := by
  cases u with
  | nil => exact Iff.rfl
  | cons s u =>
    rw [Abuts, Abuts, if_neg (not_not.mpr rfl), if_neg (not_not.mpr rfl)]

/-- A `.bss` and a `.sbss`: they are contiguous when the later one abuts on the earlier one. -/
lemma contiguous_iff_abuts {u : List Scnhdr} (hu : ∀ s ∈ u, s.isBss ∧ s.sSize ≠ 0)
    (hb : named bss u = 1) (hs : named sbss u = 1) (hlen : u.length = 2) :
    Contiguous u ↔ Abuts 0 0 u := by
  match u, hlen with
  | [s, s'], _ =>
    have hne : s.name ≠ s'.name := by
      intro heq
      rcases isBss_iff.mp (hu s (by simp)).1 with h | h
      · have h' : s'.name = bss := heq ▸ h
        simp [named, h, h'] at hb
      · have h' : s'.name = sbss := heq ▸ h
        simp [named, h, h'] at hs
    have hboth : s.name = bss ∧ s'.name = sbss ∨ s.name = sbss ∧ s'.name = bss := by
      rcases isBss_iff.mp (hu s (by simp)).1 with h | h <;>
        rcases isBss_iff.mp (hu s' (by simp)).1 with h' | h'
      · exact absurd (h.trans h'.symm) hne
      · exact .inl ⟨h, h'⟩
      · exact .inr ⟨h, h'⟩
      · exact absurd (h.trans h'.symm) hne
    rw [Abuts, if_neg (not_not.mpr rfl), Abuts, if_pos (hu s (by simp)).2, Abuts, or_false]
    simp [Contiguous, hboth]

/-- What the loop asks of the sections. -/
def Accepted (l : List Scnhdr) : Prop :=
  (l.filter Scnhdr.isData).length ≤ 1 ∧ ¬ Abuts 0 0 (l.filter Scnhdr.isBss)

/-- A file that can be converted, in numbers. -/
lemma convertible_iff (hl : Ready file l) : Convertible l ↔
    (l.filter Scnhdr.isData).length ≤ 1 ∧ named text l ≤ 1 ∧ named bss l ≤ 1 ∧ named sbss l ≤ 1 ∧
      (2 ≤ (l.filter Scnhdr.isBss).length → Abuts 0 0 (l.filter Scnhdr.isBss)) := by
  have hu : ∀ s ∈ l.filter Scnhdr.isBss, s.isBss ∧ s.sSize ≠ 0 := fun s hs =>
    ⟨(List.mem_filter.mp hs).2, (hl s (List.mem_filter.mp hs).1).1⟩
  have hnamed : ∀ n, n = bss ∨ n = sbss → named n (l.filter Scnhdr.isBss) = named n l := by
    intro n hn
    rw [named, named, List.filter_filter]
    refine congrArg List.length (List.filter_congr fun s _ => ?_)
    by_cases h : s.name = n
    · have : s.isBss := isBss_iff.mpr (h ▸ hn)
      simp [h, this]
    · simp [h]
  have hcont : named bss l ≤ 1 → named sbss l ≤ 1 →
      (Contiguous l ↔ (2 ≤ (l.filter Scnhdr.isBss).length → Abuts 0 0 (l.filter Scnhdr.isBss))) := by
    intro hb hs
    rw [contiguous_filter]
    have hlen := length_filter_isBss (l := l)
    by_cases h2 : 2 ≤ (l.filter Scnhdr.isBss).length
    · rw [contiguous_iff_abuts hu (by rw [hnamed _ (.inl rfl)]; omega)
        (by rw [hnamed _ (.inr rfl)]; omega) (by omega)]
      exact ⟨fun h _ => h, fun h => h h2⟩
    · exact ⟨fun _ h => absurd h h2, fun _ => contiguous_of_length (by omega)⟩
  rw [length_filter_isData]
  constructor
  · rintro ⟨hone, honce, hc⟩
    obtain ⟨ht, hd, hr, hb, hs⟩ := (nodup_iff hl).mp honce
    have := oneData_iff.mp hone
    exact ⟨by omega, ht, hb, hs, (hcont hb hs).mp hc⟩
  · rintro ⟨hd, ht, hb, hs, hc⟩
    exact ⟨oneData_iff.mpr (by omega), (nodup_iff hl).mpr ⟨ht, by omega, by omega, hb, hs⟩,
      (hcont hb hs).mpr hc⟩

/-- **The test of the loop agrees with what can be converted** exactly on these. -/
theorem served_iff (hl : Ready file l) : Served l ↔ (Accepted l ↔ Convertible l) := by
  rw [convertible_iff hl, Served, Accepted, length_filter_isText]
  have hlen := length_filter_isBss (l := l)
  have hfew : (l.filter Scnhdr.isBss).length ≤ 1 → ¬ Abuts 0 0 (l.filter Scnhdr.isBss) :=
    not_abuts_of_length
  change _ ∨ _ ∨ (_ ∨ 2 ≤ named bss l ∨ 2 ≤ named sbss l) ∧ _ ↔ _
  by_cases habuts : Abuts 0 0 (l.filter Scnhdr.isBss)
  · have h2 : ¬ (l.filter Scnhdr.isBss).length ≤ 1 := fun h => hfew h habuts
    simp only [habuts, h2, not_true_eq_false, and_false, implies_true, and_true, false_or,
      false_iff, not_and]
    omega
  · simp only [habuts, and_false, or_false, not_false_eq_true, and_true, imp_false]
    omega

/-! ### The whole conversion -/

lemma buffer_take_drop {p n i : ℕ} (h : i < n) :
    buffer ((file.drop p).take n) i = buffer file (p + i) := by
  simp only [buffer, List.getD_eq_getElem?_getD, List.getElem?_take, h, if_true, List.getElem?_drop]

lemma readShort_take_drop {p n i : ℕ} (h : i + 1 < n) :
    Machine.readShort (buffer ((file.drop p).take n)) i =
      Machine.readShort (buffer file) (p + i) := by
  unfold Machine.readShort
  rw [buffer_take_drop h, buffer_take_drop (by omega), Nat.add_assoc]

/-- The state before the loop. -/
def State.start (stack : NoffHeader) (file : List Byte) : State where
  noffH := NoffHeader.init stack
  inNoffFile := BitVec.ofNat 32 noffHeaderSize
  position := filehdrSize + aouthdrSize +
    (Machine.readShort (buffer file) 2).toNat * scnhdrSize
  body := []

/-- The conversion of a COFF file is the loop over its sections. -/
lemma main_eq (stack : NoffHeader) (h : Coff file) :
    main stack file = match loadSections file (nonempty (sections file)) (.start stack file) with
      | .error f => .error f
      | .ok st => .ok (headerBytes st.noffH ++ st.body) := by
  obtain ⟨hmips, homagic, hheaders, -⟩ := h
  have hread : ∀ {p n}, p + n ≤ file.length → read file p n = .ok ((file.drop p).take n) :=
    fun hle => if_pos hle
  have h₀ : Machine.readShort (buffer ((file.drop 0).take filehdrSize)) 0 = MIPSELMAGIC := by
    rw [readShort_take_drop (by decide), hmips]
  have h₁ : Machine.readShort (buffer ((file.drop 0).take filehdrSize)) 2 =
      Machine.readShort (buffer file) 2 := by
    rw [readShort_take_drop (by decide), Nat.zero_add]
  have h₂ : Machine.readShort (buffer ((file.drop filehdrSize).take aouthdrSize)) 0 = OMAGIC := by
    rw [readShort_take_drop (by decide), Nat.add_zero, homagic]
  unfold main
  rw [hread (by simp only [filehdrSize] at *; omega), ok_bind, if_neg (not_not.mpr h₀),
    hread (by simp only [filehdrSize, aouthdrSize] at *; omega), ok_bind, if_neg (not_not.mpr h₂)]
  simp only [h₁]
  rw [hread hheaders, ok_bind, ← loadSections_nonempty]
  change (loadSections file (sections file) (.start stack file) >>= fun st =>
    Except.ok (headerBytes st.noffH ++ st.body)) = _
  cases loadSections file (sections file) (.start stack file) with
  | error f => rfl
  | ok st => rfl

lemma ready_nonempty (h : Coff file) : Ready file (nonempty (sections file)) := fun s hs =>
  ⟨by simpa using (List.mem_filter.mp hs).2, h.known s hs⟩

/-- The conversion succeeds when the loop accepts the sections. -/
lemma main_ok_iff (stack : NoffHeader) (h : Coff file) :
    (∃ noff, main stack file = .ok noff) ↔ Accepted (nonempty (sections file)) := by
  have hloop : (∃ st, loadSections file (nonempty (sections file)) (.start stack file) = .ok st) ↔
      Accepted (nonempty (sections file)) := by
    have hz : (State.start stack file).noffH.initData.size = 0 := rfl
    rw [loadSections_ok_iff (ready_nonempty h), if_pos hz, Nat.add_zero]
    exact and_congr Iff.rfl (not_congr abuts_zero)
  rw [main_eq stack h, ← hloop]
  cases loadSections file (nonempty (sections file)) (.start stack file) with
  | error f => exact ⟨fun ⟨_, h⟩ => (by cases h), fun ⟨_, h⟩ => (by cases h)⟩
  | ok st => exact ⟨fun _ => ⟨st, rfl⟩, fun _ => ⟨_, rfl⟩⟩

/-- What can be converted and is accepted has few sections. -/
lemma few_of_convertible (h : Coff file) (hc : Convertible (nonempty (sections file)))
    (ha : Accepted (nonempty (sections file))) : Few (nonempty (sections file)) := by
  obtain ⟨hd, ht, -, -, hb⟩ := (convertible_iff (ready_nonempty h)).mp hc
  refine ⟨ht, hd, ?_⟩
  by_contra hn
  exact ha.2 (hb (by omega))

/-- The NOFF file that is written holds the sections, if there are few. -/
lemma holds_of_main (stack : NoffHeader) {noff : List Byte} (h : Coff file)
    (hfew : Few (nonempty (sections file))) (hm : main stack file = .ok noff) (mem : ℕ → Byte) :
    Holds file noff (readHeader noff mem) := by
  have hstart : Loaded file [] (.start stack file) := by
    refine ⟨rfl, rfl, Nat.le_refl _, by simp, by simp, fun _ => rfl, fun a => ?_, fun _ => rfl⟩
    have hz : (State.start stack file).noffH.uninitData.size = 0 := rfl
    simp [Covers, hz]
  rw [main_eq stack h] at hm
  split at hm
  next => cases hm
  next st hst =>
    cases hm
    have hl := hstart.loadSections (ready_nonempty h) hfew hst
    rw [List.nil_append] at hl
    rw [readHeader_headerBytes]
    refine ⟨hl.magic, fun s hs ht => ?_, fun s hs hd => ?_, hl.uninitData⟩
    · exact (hl.code s hs ht).recorded ((h.known s hs).inside (.inl ht)) _
    · exact (hl.initData s hs hd).recorded ((h.known s hs).inside (.inr hd)) _

/-- **The conversion does what it should exactly on the files of `Served`.** -/
theorem converts_iff_served (stack : NoffHeader) (h : Coff file) :
    ConvertsAsItShould stack file ↔ Served (nonempty (sections file)) := by
  rw [served_iff (ready_nonempty h), ConvertsAsItShould, main_ok_iff stack h]
  refine ⟨And.left, fun hiff => ⟨hiff, fun noff hm mem => ?_⟩⟩
  have ha := (main_ok_iff stack h).mp ⟨noff, hm⟩
  exact holds_of_main stack h (few_of_convertible h (hiff.mp ha) ha) hm mem

/-! ### Two files -/

/-- The eight characters of a name, an address, a size and a place in the file, as a header. -/
def scnhdrBytes (name : List Byte) (paddr size scnptr : Word) : List Byte :=
  name ++ List.replicate (8 - name.length) 0 ++ wordBytes paddr ++ wordBytes 0 ++ wordBytes size ++
    wordBytes scnptr ++ List.replicate 16 0

/-- A COFF file with two sections and four bytes of raw data, at 156. -/
def coffBytes (first second : List Byte) : List Byte :=
  [0x62, 0x01, 2, 0] ++ List.replicate 16 0 ++ [0x07, 0x01] ++ List.replicate 54 0 ++ first ++
    second ++ [1, 2, 3, 4]

/-- `.sbss` and then `.bss`, as `script` places them. -/
def contiguousBss : List Byte :=
  coffBytes (scnhdrBytes sbss 0x100 8 0) (scnhdrBytes bss 0x108 16 0)

def textAndBss : List Byte :=
  coffBytes (scnhdrBytes text 0 4 156) (scnhdrBytes bss 0x80 16 0)

/-- A `Coff` file, by evaluation. -/
lemma coff_of_check (hm : Machine.readShort (buffer file) 0 = MIPSELMAGIC)
    (ho : Machine.readShort (buffer file) filehdrSize = OMAGIC)
    (hh : filehdrSize + aouthdrSize +
      (Machine.readShort (buffer file) 2).toNat * scnhdrSize ≤ file.length)
    (hk : ((nonempty (sections file)).all fun s => (s.isText || s.isData || s.isBss) &&
      (s.isBss || (decide (0 ≤ s.sScnptr.toInt) && decide (0 ≤ s.sSize.toInt) &&
        decide (s.sScnptr.toNat + s.sSize.toNat ≤ file.length)))) = true) : Coff file := by
  refine ⟨hm, ho, hh, fun s hs => ?_⟩
  have := List.all_eq_true.mp hk s hs
  simp only [Bool.and_eq_true, Bool.or_eq_true, decide_eq_true_eq] at this
  obtain ⟨hn, hin⟩ := this
  refine ⟨by tauto, fun hinit => ?_⟩
  rcases hin with hb | ⟨⟨hptr, hsize⟩, hle⟩
  · rcases hinit with ht | hd
    · rw [isText_of_isBss hb] at ht
      cases ht
    · rw [isData_of_isBss hb] at hd
      cases hd
  · exact ⟨hptr, hsize, hle⟩

lemma coff_textAndBss : Coff textAndBss :=
  coff_of_check (by decide +kernel) (by decide +kernel) (by decide +kernel) (by decide +kernel)

lemma coff_contiguousBss : Coff contiguousBss :=
  coff_of_check (by decide +kernel) (by decide +kernel) (by decide +kernel) (by decide +kernel)

/-- A header of zeros. -/
def zeroHeader : NoffHeader := ⟨0, ⟨0, 0, 0⟩, ⟨0, 0, 0⟩, ⟨0, 0, 0⟩⟩

theorem converts_iff_served_textAndBss :
    ConvertsAsItShould zeroHeader textAndBss ∧ Served (nonempty (sections textAndBss)) := by
  have hserved : Served (nonempty (sections textAndBss)) :=
    .inr (.inl ⟨by decide +kernel, by decide +kernel⟩)
  exact ⟨(converts_iff_served zeroHeader coff_textAndBss).mpr hserved, hserved⟩

/-- Contiguous sections are refused. -/
theorem refuses_contiguousBss :
    ¬ ∀ stack file, Coff file → ConvertsAsItShould stack file := by
  intro h
  have hc := (h zeroHeader contiguousBss coff_contiguousBss).1
  have hready := ready_nonempty coff_contiguousBss
  rw [main_ok_iff _ coff_contiguousBss, ← served_iff hready] at hc
  rcases hc with hdata | ⟨-, hbss⟩ | ⟨htwice, -⟩
  · exact absurd hdata (by decide +kernel)
  · exact absurd hbss (by decide +kernel)
  · exact absurd htwice (by decide +kernel)

end Nachos.Bin
