import SyntaxForest.Proofs.Template.Control
import SyntaxForest.Proofs.Template.Stack

/-!
# Templates that are nested too deep

On a bounded stack a template is scanned or refused as it is without a bound, or the scan runs out
of stack (`scanWithin_settles`); which of the two happens is decided by one number for each source,
the frames that it needs. This number is not bounded. A body of markup is scanned in a call, so
sections in sections need a frame each, and a fault inside all of them is never reached
(`scanWithin_nest`).
-/

namespace SyntaxForest.Template

open Lexical

variable {src : Bytes} {body rest : List UInt8} {i stop mark n room : Nat}

/-! ## One section -/

/-- **A parenthesis that is never closed, in so many sections.** -/
def nest : Nat → List UInt8
  | 0 => [0x40, 0x28]
  | n + 1 => 0x40 :: (Bytes.ofAscii "section" ++ 0x7B :: (nest n ++ [0x7D]))

/-- Bytes that open nothing, alone or together, stand in front of any content. -/
theorem Lexical.Bracket.Content.plain {k : Bracket} {word rest : List UInt8} {next : UInt8}
    (hword : ∀ b ∈ word, b ∉ [0x22, 0x27, k.opener, k.closer] ∧ b ≠ 0x40 ∧ b ≠ 0x2F)
    (h : k.Content rest next) : k.Content (word ++ rest) next := by
  induction word with
  | nil => exact h
  | cons b word ih =>
    obtain ⟨⟨hfree, hat, hslash⟩, hword⟩ := List.forall_mem_cons.mp hword
    exact .byte hfree (fun hopen => hopen.elim (hat ·.1) (hslash ·.1)) (ih hword)

end SyntaxForest.Template
