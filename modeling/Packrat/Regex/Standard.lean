import Packrat.Regex.Bounds
import Packrat.Regex.Reader

/-!
# `Packrat/Regex/Standard.lean` — the library that the program runs with

`Library.standard` reads the syntax of `Packrat/Regex/Reader.lean` and matches by
`Packrat/Regex/Matcher.lean`. It is meant for sources that keep to that syntax. Unicode properties,
named sets, recursion, conditionals and branch resets lie beyond it; grammars that use them need
another library.
-/

set_option autoImplicit false

namespace Packrat

namespace Regex

theorem Parsed.source_read {source : String} {flags : Flags} {p : Parsed}
    (h : Parsed.read source flags = .ok p) : p.source = source := by
  unfold Parsed.read at h
  split at h
  · cases h
  · split at h
    · cases h
    · split at h <;> cases h
      rfl

def Parsed.toRegex (p : Parsed) : Regex := ⟨p.source, p.matchEnd?, p.matchEnd?_bounds⟩

/-- A fault as a refusal, in the words of `Fault.message`. -/
def Fault.refusal (source : List Char) (f : Fault) : Refusal :=
  if f.isMisuse then .misuse (f.message source) else .malformed (f.message source)

def Library.standard : Library where
  read source flags :=
    match Parsed.read source flags with
    | .error f => .error (f.refusal source.toList)
    | .ok p => .ok p.toRegex
  source_read {source flags r} h := by
    split at h
    · cases h
    · rename_i p hp
      cases h
      exact Parsed.source_read hp

theorem Library.read_standard {source : String} {flags : Flags} {p : Parsed}
    (h : (Parsed.read source flags).toOption = some p) :
    Library.standard.read source flags = .ok p.toRegex := by
  unfold standard
  dsimp only
  split
  · rename_i f hf
    rw [hf] at h
    cases h
  · rename_i q hq
    rw [hq] at h
    cases h
    rfl

end Regex

end Packrat
