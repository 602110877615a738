import NodeMemory.Proofs.FileWrites
import NodeMemory.Proofs.JsonTexts
/-!
# What comes of a text that is given out

A text goes to the standard output, where control sequences may be taken out of it, or into a file,
which may fail (`ending_deliver`). A written JSON value has no control sequence in it, so it comes
through as it is on either way, if the program comes to its end (`gives_deliver`).
-/

namespace NodeMemory

/-! ## What a terminal would not take -/

theorem Text.controlLength_of_ne {c : Char} (h : c ≠ '\x1b') (cs : List Char) : controlLength (c :: cs) = 0 := by
  unfold controlLength
  split
  · next heq =>
    cases heq
    exact absurd rfl h
  · rfl

theorem Text.dropControls_eq_self {cs : List Char} (h : '\x1b' ∉ cs) : dropControls 0 cs = cs := by
  induction cs with
  | nil => rfl
  | cons c cs ih =>
    obtain ⟨hc, hcs⟩ := not_or.1 (List.mem_cons.not.1 h)
    rw [dropControls, controlLength_of_ne (Ne.symm hc), ih hcs]

/-- A written value and the end of its line go to a terminal and anywhere else as they are. -/
theorem Json.withoutControls_render (x : Json) : Text.withoutControls (x.render ++ "\n") = x.render ++ "\n" := by
  have h : '\x1b' ∉ (x.render ++ "\n").toList := by
    intro hc
    rw [Json.render, String.toList_append, String.toList_ofList, List.mem_append] at hc
    rcases hc with hc | hc
    · exact absurd ((tidy_write x).visible _ hc) (by decide)
    · exact absurd hc (by decide)
  rw [Text.withoutControls, Text.dropControls_eq_self h, String.ofList_toList]

/-! ## Deliveries -/

namespace Program

theorem ending_deliver (s : Surroundings) (events : List Event) (output text : String) (code : Nat) :
    (deliver s events output text code).ending = .exit code ∨ (output ≠ Setting.standardOutput ∧
      ∃ fault, (deliver s events output text code).ending = .fault (.output fault)) := by
  unfold deliver
  split
  · exact .inl rfl
  · next hne =>
    dsimp only
    split
    · exact .inl rfl
    · exact .inr ⟨hne, _, rfl⟩

/-- What is given out to a file, if the program comes to its end: the bytes of the text are in the file, and one
more event tells of it. -/
theorem deliver_file {s : Surroundings} {events : List Event} {output text : String} {code exit : Nat}
    (ho : output ≠ Setting.standardOutput) (h : (deliver s events output text code).ending = .exit exit) :
    (deliver s events output text code).files.read (.ofText output) = .ok (Text.Utf8.encode text) ∧
      (deliver s events output text code).events = events ++ [written (.ofText output) text] := by
  unfold deliver at h ⊢
  rw [if_neg ho] at h ⊢
  dsimp only at h ⊢
  cases hw : writeFile s.machine.files (.ofText output) text with
  | mk files fault =>
    cases fault with
    | some fault => simp [hw] at h
    | none => exact ⟨read_of_writeFile hw, rfl⟩

/-- A text was given out: to the standard output, or into the file at a path. -/
def Gives (output text : String) (t : Transcript) : Prop :=
  if output = Setting.standardOutput then t.output = text
  else t.files.read (.ofText output) = .ok (Text.Utf8.encode text)

/-- What is given out of a value comes through whole, if the program comes to its end. -/
theorem gives_deliver {s : Surroundings} {events : List Event} {output : String} {x : Json} {code exit : Nat}
    (h : (deliver s events output (x.render ++ "\n") code).ending = .exit exit) :
    Gives output (x.render ++ "\n") (deliver s events output (x.render ++ "\n") code) := by
  unfold Gives
  split
  · next ho =>
    unfold deliver
    simp only [if_pos ho, print, Json.withoutControls_render, ite_self]
  · next ho => exact (deliver_file ho h).1

end Program

end NodeMemory
