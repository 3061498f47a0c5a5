import Schemata.Project.Select
import Schemata.Proofs.Naming.Namespace
import Schemata.Proofs.Version.Notation

/-!
# The written form of an identity

A package name is written with dots between its parts, and an identity with an at
sign between its name and its version.  None of these marks is in a part or in a
version, so the written form of an identity is a selector for its name and its
version.  It has no colon either.

**Results.** `PackageName.IsValid.parse?_display`, `Identity.IsValid.parseSelector?_display`,
`Identity.IsValid.display_inj`.
-/

namespace Schemata

namespace PackageName

variable {name : PackageName}

/-- A character that no identifier has is not in the parts of a name. -/
theorem IsValid.not_mem_part
    (h : name.IsValid)
    {c : Char}
    (hc : Naming.isIdentChar c = false) :
    ∀ part ∈ name.parts, c ∉ part.toList := by
  intro part hpart hmem
  have hident := isIdentText_of_isPart (h.isPart.2 part hpart) c hmem
  rw [hc] at hident
  cases hident

theorem IsValid.parse?_display
    (h : name.IsValid) :
    parse? name.display = some name := by
  have hsplit : Text.split '.' name.display = name.parts :=
    Text.split_intercalate h.isPart.1 (h.not_mem_part (by decide))
  rw [parse?, hsplit, if_pos (List.all_eq_true.mpr h.isPart.2)]

theorem IsValid.not_mem_display
    (h : name.IsValid)
    {c : Char}
    (hc : Naming.isIdentChar c = false)
    (hdot : c ≠ '.') :
    c ∉ name.display.toList := by
  intro hmem
  rw [display, String.toList_intercalate] at hmem
  rcases Version.mem_intercalate hmem with heq | ⟨piece, hpiece, hmem⟩
  · exact hdot heq
  · obtain ⟨part, hpart, rfl⟩ := List.mem_map.mp hpiece
    exact h.not_mem_part hc part hpart hmem

end PackageName

namespace Identity

/-- The name and the version of the identity can be read from texts. -/
structure IsValid
    (identity : Identity) : Prop where
  name : identity.name.IsValid
  version : ∀ v ∈ identity.version, v.IsValid

variable {identity : Identity}

theorem display_of_version
    {v : Version}
    (h : identity.version = some v) :
    identity.display = identity.name.display ++ "@" ++ v.display := by
  rw [display, h]
  rfl

theorem display_of_none
    (h : identity.version = none) :
    identity.display = identity.name.display := by
  rw [display, h]

/-- The written form of an identity selects its name, and its version if it has one. -/
theorem IsValid.parseSelector?_display
    (h : identity.IsValid) :
    Schema.parseSelector? identity.display = some (identity.name, identity.version) := by
  have hmark := h.name.not_mem_display (c := '@') (by decide) (by decide)
  unfold Schema.parseSelector?
  cases hversion : identity.version with
  | none =>
      rw [display_of_none hversion, Text.cutAt?_eq_none hmark]
      dsimp only
      rw [h.name.parse?_display]
      rfl
  | some v =>
      have hlist : identity.display.toList =
          identity.name.display.toList ++ ['@'] ++ v.display.toList := by
        rw [display_of_version hversion, String.toList_append, String.toList_append]
        rfl
      rw [hlist, Text.cutAt?_append hmark]
      dsimp only
      rw [String.ofList_toList, String.ofList_toList,
        (h.version v hversion).parse_display, h.name.parse?_display]
      rfl

/-- The written form of an identity has no colon. -/
theorem IsValid.colon_not_mem_display
    (h : identity.IsValid) :
    ':' ∉ identity.display.toList := by
  have hname := h.name.not_mem_display (c := ':') (by decide) (by decide)
  cases hversion : identity.version with
  | none =>
      rwa [display_of_none hversion]
  | some v =>
      have hcolon := (h.version v hversion).not_mem_display (c := ':') (by decide) (by decide)
        (by decide)
      rw [display_of_version hversion, String.toList_append, String.toList_append]
      simp only [List.mem_append, hname, hcolon, or_false, false_or]
      decide

/-- Identities that are written alike are equal. -/
theorem IsValid.display_inj
    {other : Identity}
    (h : identity.IsValid)
    (hother : other.IsValid)
    (hdisplay : identity.display = other.display) :
    identity = other := by
  have hselector := h.parseSelector?_display
  rw [hdisplay, hother.parseSelector?_display, Option.some.injEq, Prod.mk.injEq] at hselector
  obtain ⟨name, version⟩ := identity
  obtain ⟨name', version'⟩ := other
  rw [Identity.mk.injEq]
  exact ⟨hselector.1.symm, hselector.2.symm⟩

end Identity

end Schemata
