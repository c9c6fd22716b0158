import SyntaxAudit.Config
import SyntaxAudit.Proofs.Path

/-! The nearest configuration wins. The search goes from a directory up to the top and stops at the
first configuration file that is there. Whatever is wrong with that file, none farther up is read in
its place, and both ways of loading agree on what is then configured. -/
namespace SyntaxAudit
open SyntaxAudit.Path

inductive Configures (fs : FileSystem) : Option Path → Loaded → Prop where
  | absent : Configures fs none ⟨{}, []⟩
  | unread {file e} (fails : fs.read file = .error e) : Configures fs (some file) ⟨{}, []⟩
  | malformed {file text} (read : fs.read file = .ok text) (fails : Toml.parse? text = none) :
      Configures fs (some file) ⟨{}, []⟩
  | undecoded {file text document e} (read : fs.read file = .ok text)
      (parsed : Toml.parse? text = some document) (fails : Config.decode document = .error e) :
      Configures fs (some file) ⟨{}, []⟩
  | decoded {file text document config} (read : fs.read file = .ok text)
      (parsed : Toml.parse? text = some document) (decoded : Config.decode document = .ok config) :
      Configures fs (some file) ⟨config, unknownKeys document⟩

section Search
variable {fs : FileSystem}

/- A directory is longer than its parent, so the steps that are counted reach the top. -/
theorem ancestorsLineage {steps : Nat} {p : Path} (enough : p.text.length ≤ steps) :
    Lineage p (ancestors steps p) := by
  induction steps generalizing p with
  | zero =>
    have empty : p = ⟨[]⟩ := congrArg Path.mk (List.length_eq_zero_iff.mp (Nat.le_zero.mp enough))
    rw [empty]
    exact .top rfl
  | succ steps ih =>
    unfold ancestors
    by_cases without : p.components = []
    · rw [parentNone without]
      exact .top without
    · obtain ⟨parent, found, next⟩ := parentFound without
      have shorter := parentShorter next
      rw [found]
      exact .up next (ih (by omega))

theorem lineageIff (start : Path) (directories : List Path) :
    Lineage start directories ↔ directories = ancestors start.text.length start := by
  have all : Lineage start (ancestors start.text.length start) := ancestorsLineage (Nat.le_refl _)
  exact ⟨fun other => lineageUnique other all, fun same => same ▸ all⟩

example : (ancestors 9 ⟨"/a/./b//".toList⟩).map Path.text =
    ["/a/./b//".toList, "/a".toList, "/".toList] := by decide

theorem findNone (start : Path) :
    findConfigFile fs start = none ↔
      ∀ d ∈ ancestors start.text.length start, fs.holds (d.join configFileName) = false := by
  simp [findConfigFile]

theorem findNearest (start file : Path) :
    findConfigFile fs start = some file ↔
      ∃ nearer d farther, ancestors start.text.length start = nearer ++ d :: farther ∧
        (∀ e ∈ nearer, fs.holds (e.join configFileName) = false) ∧
        fs.holds (d.join configFileName) = true ∧ file = d.join configFileName := by
  simp only [findConfigFile, List.find?_map, Option.map_eq_some_iff, List.find?_eq_some_iff_append]
  constructor
  · rintro ⟨d, ⟨there, nearer, farther, split, absent⟩, rfl⟩
    exact ⟨nearer, d, farther, split, fun e mem => by simpa using absent e mem, there, rfl⟩
  · rintro ⟨nearer, d, farther, split, absent, there, rfl⟩
    exact ⟨d, ⟨there, nearer, farther, split, fun e mem => by simp [absent e mem]⟩, rfl⟩

end Search

section Loading

theorem loadedConfigures (fs : FileSystem) (start : Path) :
    Configures fs (findConfigFile fs start) (loadOrDefaultWithUnknown fs start) := by
  unfold loadOrDefaultWithUnknown
  cases findConfigFile fs start with
  | none => exact .absent
  | some file =>
    simp only [loadWithUnknown]
    cases read : fs.read file with
    | error e => exact .unread read
    | ok text =>
      simp only [Config.parse]
      cases parsed : Toml.parse? text with
      | none => exact .malformed read parsed
      | some document =>
        cases decoded : Config.decode document with
        | error e => simpa only [decoded] using .undecoded read parsed decoded
        | ok config => simpa only [decoded] using .decoded read parsed decoded

theorem loadersAgree (fs : FileSystem) (start : Path) :
    loadOrDefault fs start = (loadOrDefaultWithUnknown fs start).config := by
  unfold loadOrDefault loadOrDefaultWithUnknown
  cases findConfigFile fs start with
  | none => rfl
  | some file =>
    simp only [load]
    cases loadWithUnknown fs file <;> rfl

end Loading

theorem nearestConfigWins (fs : FileSystem) (start : Path) :
    ∃ lineage, (∀ directories, Lineage start directories ↔ directories = lineage) ∧
      (∀ d ∈ lineage, (d.join configFileName).isAbsolute = d.isAbsolute ∧
        (d.join configFileName).components = d.components ++ ["quarry.toml".toList]) ∧
      (findConfigFile fs start = none ↔
        ∀ d ∈ lineage, fs.holds (d.join configFileName) = false) ∧
      (∀ file, findConfigFile fs start = some file ↔
        ∃ nearer d farther, lineage = nearer ++ d :: farther ∧
          (∀ e ∈ nearer, fs.holds (e.join configFileName) = false) ∧
          fs.holds (d.join configFileName) = true ∧ file = d.join configFileName) ∧
      Configures fs (findConfigFile fs start) (loadOrDefaultWithUnknown fs start) ∧
      loadOrDefault fs start = (loadOrDefaultWithUnknown fs start).config := by
  refine ⟨ancestors start.text.length start, lineageIff start, fun d _ => ?_, findNone start,
    findNearest start, loadedConfigures fs start, loadersAgree fs start⟩
  exact joinName d (by decide) (by decide) (by decide)

end SyntaxAudit
