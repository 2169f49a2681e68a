import Gcpp.GcScan
import Gcpp.Proof.Scan

/-!
# Reading a line of the maps

A line starts with the range and the access rights of a region, in the form the kernel writes. What
`scan_globals` takes out of such a line is the region, if the line names a file and the rights are
to read and not to execute.
-/

namespace Gcpp

open ByteMemory

variable {m : Memory} {line pre post : List Char} {c : Char}

theorem find_append (h : c ∉ pre) : find (pre ++ c :: post) c = pre.length := by
  have hpre : pre.findIdx? (· == c) = none := by
    rw [List.findIdx?_eq_none_iff]
    intro d hd
    exact beq_eq_false_iff_ne.mpr fun heq => h (heq ▸ hd)
  rw [find, List.findIdx?_append, hpre, Option.none_or, List.findIdx?_cons]
  simp

theorem find_ne_npos_iff (hlength : line.length < npos) : find line c ≠ npos ↔ c ∈ line := by
  rw [find]
  cases hidx : line.findIdx? (· == c) with
  | none =>
      rw [List.findIdx?_eq_none_iff] at hidx
      simp only [Option.getD_none, ne_eq, not_true, false_iff]
      intro hmem
      simpa using hidx c hmem
  | some i =>
      obtain ⟨hlt, hc, _⟩ := List.findIdx?_eq_some_iff_getElem.mp hidx
      have hmem : c ∈ line := by
        rw [← eq_of_beq hc]
        exact List.getElem_mem hlt
      simp only [Option.getD_some, hmem, iff_true]
      omega

theorem find_eq_npos_iff (hlength : line.length < npos) : find line c = npos ↔ c ∉ line := by
  rw [← find_ne_npos_iff hlength, not_not]

/-- A line as the kernel writes it. A region ends below the addresses that carry a tag. -/
structure MapsLine where
  startText : List Char
  endText : List Char
  access : List Char
  rest : List Char
  start_ne_nil : startText ≠ []
  end_ne_nil : endText ≠ []
  start_hex : ∀ c ∈ startText, (hexDigit c).isSome
  end_hex : ∀ c ∈ endText, (hexDigit c).isSome
  access_length : access.length = 4
  access_plain : ∀ c ∈ access, c ∈ ['r', 'w', 'x', 'p', 's', '-']
  length_lt : startText.length + endText.length + rest.length + 7 < npos
  start_le : parseHex 0 startText ≤ parseHex 0 endText
  stop_le : parseHex 0 endText ≤ 2 ^ 56

namespace MapsLine

variable (l : MapsLine)

def start : Nat := parseHex 0 l.startText

def stop : Nat := parseHex 0 l.endText

def text : List Char :=
  l.startText ++ '-' :: (l.endText ++ blank :: (l.access ++ blank :: l.rest))

/-- The region is mapped from a file, readable and not executable. -/
def IsData : Prop := '/' ∈ l.rest ∧ 'r' ∈ l.access ∧ 'x' ∉ l.access

instance : Decidable l.IsData := inferInstanceAs (Decidable (_ ∧ _ ∧ _))

theorem text_length :
    l.text.length = l.startText.length + l.endText.length + l.rest.length + 7 := by
  have haccess := l.access_length
  simp only [text, List.length_append, List.length_cons]
  omega

theorem not_mem_hex {text : List Char} (hhex : ∀ c ∈ text, (hexDigit c).isSome)
    (hc : hexDigit c = none) : c ∉ text := fun hmem => by
  have hsome := hhex c hmem
  rw [hc] at hsome
  cases hsome

theorem find_dash : find l.text '-' = l.startText.length :=
  find_append (not_mem_hex l.start_hex (by decide))

theorem find_blank : find l.text blank = l.startText.length + l.endText.length + 1 := by
  have hassoc : l.text = (l.startText ++ '-' :: l.endText) ++
      blank :: (l.access ++ blank :: l.rest) := by
    simp [text]
  rw [hassoc, find_append, List.length_append, List.length_cons]
  · omega
  · rw [List.mem_append, List.mem_cons, not_or, not_or]
    exact ⟨not_mem_hex l.start_hex (by decide), by decide, not_mem_hex l.end_hex (by decide)⟩

theorem find_slash : find l.text '/' ≠ npos ↔ '/' ∈ l.rest := by
  have haccess : '/' ∉ l.access := fun hmem => by
    have hplain := l.access_plain '/' hmem
    revert hplain
    decide
  have hstart : '/' ∉ l.startText := not_mem_hex l.start_hex (by decide)
  have hend : '/' ∉ l.endText := not_mem_hex l.end_hex (by decide)
  have hdash : '/' ≠ '-' := by decide
  have hblank : '/' ≠ blank := by decide
  rw [find_ne_npos_iff (by rw [text_length]; exact l.length_lt)]
  simp [text, haccess, hstart, hend, hdash, hblank]

theorem parse_hex {text : List Char} (hne : text ≠ []) (hhex : ∀ c ∈ text, (hexDigit c).isSome)
    (hlt : parseHex 0 text < 2 ^ 64) : stoull text = some (parseHex 0 text) := by
  cases text with
  | nil => exact absurd rfl hne
  | cons c rest =>
      obtain ⟨digit, hdigit⟩ := Option.isSome_iff_exists.mp (hhex c List.mem_cons_self)
      rw [stoull, List.head?_cons, Option.bind_some, hdigit]
      exact if_pos hlt

/-- **A line is read as its region.** -/
theorem scanGlobalsLine_text :
    scanGlobalsLine m l.text = if l.IsData then scanMemory m l.start l.stop else some [] := by
  have hlength := l.length_lt
  have hnpos : npos = 2 ^ 64 - 1 := rfl
  have hstop := l.stop_le
  have hstart := l.start_le
  have haccess : substr l.text ((find l.text blank + 1) % 2 ^ 64) 4 = some l.access := by
    rw [l.find_blank, Nat.mod_eq_of_lt (by omega), substr,
      if_pos (by rw [text_length]; omega)]
    have hassoc : l.text = (l.startText ++ '-' :: (l.endText ++ [blank])) ++
        (l.access ++ blank :: l.rest) := by
      simp [text]
    rw [hassoc, List.drop_append_of_le_length (by simp; omega), List.drop_eq_nil_of_le (by simp; omega),
      List.nil_append, ← l.access_length, List.take_left']
    rfl
  have hstartText : substr l.text 0 (find l.text '-') = some l.startText := by
    rw [l.find_dash, substr, if_pos (Nat.zero_le _), List.drop_zero, text, List.take_left']
    rfl
  have hendText : substr l.text ((find l.text '-' + 1) % 2 ^ 64)
      ((find l.text blank + 2 * 2 ^ 64 - find l.text '-' - 1) % 2 ^ 64) = some l.endText := by
    rw [l.find_dash, l.find_blank, Nat.mod_eq_of_lt (by omega), substr,
      if_pos (by rw [text_length]; omega),
      show l.startText.length + l.endText.length + 1 + 2 * 2 ^ 64 - l.startText.length - 1 =
        l.endText.length + 2 * 2 ^ 64 by omega, Nat.add_mul_mod_self_right,
      Nat.mod_eq_of_lt (by omega)]
    have hassoc : l.text = (l.startText ++ ['-']) ++ (l.endText ++
        blank :: (l.access ++ blank :: l.rest)) := by
      simp [text]
    rw [hassoc, List.drop_left' (by simp), List.take_left']
    rfl
  have hrights : ∀ c, find l.access c = npos ↔ c ∉ l.access := fun c =>
    find_eq_npos_iff (by rw [l.access_length]; omega)
  by_cases hfile : '/' ∈ l.rest
  · rw [scanGlobalsLine, if_pos (l.find_slash.mpr hfile), haccess, Option.bind_eq_bind,
      Option.bind_some]
    by_cases haccess' : 'r' ∈ l.access ∧ 'x' ∉ l.access
    · have htest : find l.access 'r' ≠ npos ∧ find l.access 'x' = npos :=
        ⟨fun heq => (hrights 'r').mp heq haccess'.1, (hrights 'x').mpr haccess'.2⟩
      rw [if_pos htest, if_pos ⟨hfile, haccess'⟩]
      dsimp only
      rw [hstartText, Option.bind_some, hendText, Option.bind_some,
        parse_hex l.start_ne_nil l.start_hex (by omega), Option.bind_eq_bind, Option.bind_some,
        parse_hex l.end_ne_nil l.end_hex (by omega), Option.bind_some]
      rfl
    · have htest : ¬ (find l.access 'r' ≠ npos ∧ find l.access 'x' = npos) := fun htest =>
        haccess' ⟨not_not.mp fun hr => htest.1 ((hrights 'r').mpr hr), (hrights 'x').mp htest.2⟩
      rw [if_neg htest, if_neg fun hdata => haccess' hdata.2]
  · rw [scanGlobalsLine, if_neg fun hslash => hfile (l.find_slash.mp hslash),
      if_neg fun hdata => hfile hdata.1]

end MapsLine

end Gcpp
