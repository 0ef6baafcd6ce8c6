import Mathlib.Data.List.Basic

/-!
# `stringUtils.h`

The functions on strings that names of files and modules go through. A string is the list of its
bytes. -/

namespace Prosperismo.StringUtils

/-- The byte of `/`. -/
def slash : UInt8 := 0x2f

/-- The byte of `\`. -/
def backslash : UInt8 := 0x5c

/-- `std::tolower` in the `C` locale, the only one that the program runs in. -/
def tolower (c : UInt8) : UInt8 := if 0x41 ≤ c ∧ c ≤ 0x5a then c + 0x20 else c

/-- `EqualNoCase`. -/
def equalNoCase (lhs rhs : List UInt8) : Bool :=
  lhs.length == rhs.length && (lhs.zip rhs).all fun c => tolower c.1 == tolower c.2

/-- `RemoveFirst`. -/
def removeFirst (text : List UInt8) (count : ℕ) : List UInt8 := text.drop count

/-- `DirectoryWithoutFilename`: up to the last `/`, with it. -/
def directoryWithoutFilename (text : List UInt8) : List UInt8 :=
  (text.reverse.dropWhile (· != slash)).reverse

/-- `FilenameWithoutDirectory`: what is behind the last `/`. -/
def filenameWithoutDirectory (text : List UInt8) : List UInt8 :=
  (text.reverse.takeWhile (· != slash)).reverse

/-- `FixFilenameSlash`. -/
def fixFilenameSlash (text : List UInt8) : List UInt8 :=
  text.map fun c => if c = backslash then slash else c

/-- `FixDirectorySlash`. -/
def fixDirectorySlash (text : List UInt8) : List UInt8 :=
  if (fixFilenameSlash text).getLast? = some slash then fixFilenameSlash text
  else fixFilenameSlash text ++ [slash]

/-! ### Slashes -/

theorem fixFilenameSlash_of_no_backslash {text : List UInt8} (h : backslash ∉ text) :
    fixFilenameSlash text = text := by
  unfold fixFilenameSlash
  refine (List.map_congr_left fun c hc => if_neg ?_).trans (List.map_id text)
  rintro rfl
  exact h hc

theorem backslash_not_mem_fixFilenameSlash (text : List UInt8) :
    backslash ∉ fixFilenameSlash text := by
  unfold fixFilenameSlash
  intro hmem
  obtain ⟨c, -, hc⟩ := List.mem_map.1 hmem
  split at hc
  · exact absurd hc (by decide)
  · next hne => exact hne hc

/-- A directory ends with a slash. -/
theorem getLast?_fixDirectorySlash (text : List UInt8) :
    (fixDirectorySlash text).getLast? = some slash := by
  unfold fixDirectorySlash
  split
  · next hlast => exact hlast
  · exact List.getLast?_concat

theorem backslash_not_mem_fixDirectorySlash (text : List UInt8) :
    backslash ∉ fixDirectorySlash text := by
  unfold fixDirectorySlash
  split
  · exact backslash_not_mem_fixFilenameSlash text
  · intro hmem
    rcases List.mem_append.1 hmem with hmem | hmem
    · exact backslash_not_mem_fixFilenameSlash text hmem
    · exact absurd (List.mem_singleton.1 hmem) (by decide)

theorem fixDirectorySlash_of_slash {text : List UInt8} (hbackslash : backslash ∉ text)
    (hlast : text.getLast? = some slash) : fixDirectorySlash text = text := by
  have hsame := fixFilenameSlash_of_no_backslash hbackslash
  unfold fixDirectorySlash
  rw [hsame, if_pos hlast]

/-- A directory that is fixed stays as it is. -/
theorem fixDirectorySlash_fixDirectorySlash (text : List UInt8) :
    fixDirectorySlash (fixDirectorySlash text) = fixDirectorySlash text :=
  fixDirectorySlash_of_slash (backslash_not_mem_fixDirectorySlash text)
    (getLast?_fixDirectorySlash text)

/-- What ends with a slash has no file name. -/
theorem directoryWithoutFilename_of_slash {text : List UInt8} (h : text.getLast? = some slash) :
    directoryWithoutFilename text = text := by
  obtain ⟨front, rfl⟩ := List.getLast?_eq_some_iff.1 h
  unfold directoryWithoutFilename
  rw [List.reverse_append, List.reverse_singleton, List.singleton_append,
    List.dropWhile_cons_of_neg (by decide), List.reverse_cons, List.reverse_reverse]

/-- **A path is its directory and a file name without a slash.** -/
theorem exists_directory (text : List UInt8) :
    ∃ name, text = directoryWithoutFilename text ++ name ∧ slash ∉ name := by
  refine ⟨(text.reverse.takeWhile (· != slash)).reverse, ?_, ?_⟩
  · unfold directoryWithoutFilename
    rw [← List.reverse_append, List.takeWhile_append_dropWhile, List.reverse_reverse]
  · intro hmem
    have hall := List.all_eq_true.1 (List.all_takeWhile (l := text.reverse) (p := (· != slash)))
    exact absurd (hall slash (List.mem_reverse.1 hmem)) (by decide)

end Prosperismo.StringUtils
