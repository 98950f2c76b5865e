import HmDianPing.Text.Utf16

/-! # Absolute paths

A path as the list of its names, what `/` separates in its text, and its normal form.
-/
namespace HmDianPing.Text

abbrev Path := List Str

/-- The names in the text of a path; repeated slashes count once. -/
def names (s : Str) : Path := (s.splitOn 0x2F).filter (· ≠ [])

theorem names_append_slash (s t : Str) : names (s ++ 0x2F :: t) = names s ++ names t := by
  simp [names, List.splitOn_append_cons_self]

theorem names_singleton {s : Str} (hs : s ≠ []) (h : 0x2F ∉ s) : names s = [s] := by
  simp [names, List.splitOn_eq_singleton h, hs]

/-- One name of a path that is being normalized. -/
def enter (path : Path) (name : Str) : Path :=
  if name = lit "." then path else if name = lit ".." then path.dropLast else path ++ [name]

/-- `.` goes, and `..` goes with the name before it, if there is one. -/
def normalize (path : Path) : Path := path.foldl enter []

/-- A name that `normalize` keeps. -/
def Plain (name : Str) : Prop := name ≠ lit "." ∧ name ≠ lit ".."

instance : DecidablePred Plain := fun _ => inferInstanceAs (Decidable (_ ∧ _))

theorem enter_plain {path : Path} {name : Str} (h : Plain name) : enter path name = path ++ [name] := by
  simp [enter, h.1, h.2]

theorem foldl_enter_plain {path add : Path} (h : ∀ name ∈ add, Plain name) :
    add.foldl enter path = path ++ add := by
  induction add generalizing path with
  | nil => simp
  | cons name add ih =>
    rw [List.foldl_cons, enter_plain (h name List.mem_cons_self),
      ih fun n hn => h n (List.mem_cons_of_mem _ hn)]
    simp

theorem normalize_append_plain {path add : Path} (h : ∀ name ∈ add, Plain name) :
    normalize (path ++ add) = normalize path ++ add := by
  rw [normalize, List.foldl_append, foldl_enter_plain h]
  rfl

theorem plain_of_mem_enter {path : Path} {name : Str} (h : ∀ n ∈ path, Plain n) :
    ∀ n ∈ enter path name, Plain n := by
  intro n hn
  unfold enter at hn
  split_ifs at hn with hdot hdots
  · exact h n hn
  · exact h n (List.mem_of_mem_dropLast hn)
  · rcases List.mem_append.mp hn with hn | hn
    · exact h n hn
    · obtain rfl := List.mem_singleton.mp hn
      exact ⟨hdot, hdots⟩

theorem plain_of_mem_normalize {path : Path} : ∀ n ∈ normalize path, Plain n := by
  have hrun : ∀ (start : Path), (∀ n ∈ start, Plain n) → ∀ n ∈ path.foldl enter start, Plain n := by
    induction path with
    | nil => exact fun start h => h
    | cons name path ih => exact fun start h => ih _ (plain_of_mem_enter h)
  exact hrun [] (by simp)

theorem normalize_normalize (path : Path) : normalize (normalize path) = normalize path := by
  have h : normalize ([] ++ normalize path) = normalize [] ++ normalize path :=
    normalize_append_plain plain_of_mem_normalize
  simpa [normalize] using h

/-- The path is below the directory and is not the directory itself. -/
def StrictlyInside (directory path : Path) : Prop := directory <+: path ∧ path ≠ directory

end HmDianPing.Text
