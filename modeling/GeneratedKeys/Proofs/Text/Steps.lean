import GeneratedKeys.Text.Script

/-!
# `GeneratedKeys.Proofs.Text.Steps`: where a program of cursor steps comes to

A program moves its cursor forward, back to any mark it has made, and, where an attempt fails, back
to where the attempt began. Marks outlive the attempts in which they are made, so a rewind may lead
out of an attempt to either side of the place where it began. All the same the cursor stands between
two characters of the text at any moment, and a failed attempt leaves no trace of where it has been.

* `Session.Reaches`: the sessions that a program comes to, those inside attempts included.
* `Sound.step`, `Sound.steps`: every step keeps the text and makes marks inside it only.
* `Cursor.slice_between`: a slice between two places of a text.
* `reaches_placed`: both together, for every text and every program.
-/

set_option autoImplicit false

namespace GeneratedKeys

namespace Session

/-- The steps `steps`, run from `s` on, come to the session `u`. The steps `rest` follow there, in
the innermost list of steps. Places inside attempts are reached too, also in attempts that fail. -/
inductive Reaches : Session → List Step → Session → List Step → Prop where
  | here {s : Session} {steps : List Step} : Reaches s steps s steps
  | later {s u : Session} {step : Step} {steps rest : List Step} :
      Reaches (step.run s).2 steps u rest → Reaches s (step :: steps) u rest
  | inside {s u : Session} {inner steps rest : List Step} {succeeds : Bool} :
      Reaches s inner u rest → Reaches s (.attempt inner succeeds :: steps) u rest

/-- The cursor stands in the text `t`, and so do the marks. This is the invariant of a run: no step
changes the text. -/
structure Sound (t : Text) (s : Session) : Prop where
  text_eq : s.cursor.text = t
  marks_le : ∀ m ∈ s.marks, m.position ≤ t.length

/-- A new session stands in its text and has made no mark. -/
theorem sound_ofText (t : Text) : Sound t (ofText t) where
  text_eq := rfl
  marks_le m hm := by cases hm

variable {t : Text} {s : Session}

/-- Moving the cursor within its text makes no mark, so the marks of a sound session stay sound. -/
theorem Sound.moved (h : Sound t s) {c : Cursor} (hc : c.text = s.cursor.text) :
    Sound t (s.moved c) where
  text_eq := hc.trans h.text_eq
  marks_le := h.marks_le

end Session

namespace Cursor

variable {t : Text} {c d : Cursor}

/-- Passing a word keeps the text, whether or not the word is there. -/
@[simp] theorem text_passWord (word : Text) (c : Cursor) :
    (c.passWord word).2.text = c.text := by
  unfold passWord
  split
  · exact text_advanceBy word.length c
  · rfl

/-- Whether or not an attempt succeeds, the cursor stays in the text. -/
theorem text_settle (succeeded : Bool) (h : d.text = c.text) :
    (c.settle succeeded d).text = c.text := by
  cases succeeded with
  | true => exact h
  | false => rw [settle_false c d h]

/-- A cursor passes no more characters than the text has, so each of its places is one of the text.
-/
theorem position_le_length (c : Cursor) : c.position ≤ c.text.length := by
  simp [position, text]

/-- The characters passed are the first ones of the text. With `ahead_eq` a position alone
determines the cursor. -/
theorem passed_eq (h : c.text = t) : c.passed.reverse = t.take c.position := by
  rw [← h, text, position, ← List.length_reverse, List.take_left]

/-- The characters ahead are the others: those of the text behind as many as were passed. -/
theorem ahead_eq (h : c.text = t) : c.ahead = t.drop c.position := by
  rw [← h, text, position, ← List.length_reverse, List.drop_left]

/-- The index of a cursor is the size of the characters that it has passed. -/
theorem index_eq (h : c.text = t) : c.index = Text.size (t.take c.position) := by
  rw [← passed_eq h, Text.size_reverse, index]

/-- What stands in front of a place, cut at an earlier place. -/
theorem take_append_between {m n : Nat} (h : m ≤ n) (t : Text) :
    t.take m ++ (t.take n).drop m = t.take n := by
  have hsplit := List.take_append_drop m (t.take n)
  rwa [List.take_take, Nat.min_eq_left h] at hsplit

/-- The bytes in front of a place that lies further on are more. -/
theorem size_take_lt {m n : Nat} (h : m < n) (hn : n ≤ t.length) :
    Text.size (t.take m) < Text.size (t.take n) := by
  have hne : (t.take n).drop m ≠ [] := by
    rw [← List.length_pos_iff, List.length_drop, List.length_take, Nat.min_eq_left hn]
    omega
  have hpos := Text.size_pos hne
  rw [← take_append_between (Nat.le_of_lt h), Text.size_append]
  omega

/-- Of two cursors in a text, the one with the greater index stands further on. -/
theorem position_le_of_index_le (hc : c.text = t) (hd : d.text = t) (h : c.index ≤ d.index) :
    c.position ≤ d.position := by
  refine Nat.le_of_not_lt fun hlt => ?_
  have hmore := size_take_lt hlt (Nat.le_trans c.position_le_length (Nat.le_of_eq (by rw [hc])))
  rw [index_eq hc, index_eq hd] at h
  omega

/-- A slice between two places of a text is made of the characters between them. Both ends are at
characters, so neither cuts an encoding. -/
theorem slice_between (hc : c.text = t) (hd : d.text = t) (h : c.index ≤ d.index) :
    Span.slice ⟨c.index, d.index⟩ t = (t.take d.position).drop c.position := by
  have hfirst := take_append_between (position_le_of_index_le hc hd h) t
  have hstop : d.index = Text.size (t.take c.position)
      + Text.size ((t.take d.position).drop c.position) := by
    rw [index_eq hd, ← Text.size_append, hfirst]
  -- The text in three pieces: in front of the one place, between the two, and behind the other.
  have hwhole : t = t.take c.position
      ++ ((t.take d.position).drop c.position ++ t.drop d.position) := by
    rw [← List.append_assoc, hfirst, List.take_append_drop]
  calc Span.slice ⟨c.index, d.index⟩ t
      = Span.slice ⟨Text.size (t.take c.position), Text.size (t.take c.position)
          + Text.size ((t.take d.position).drop c.position)⟩
          (t.take c.position
            ++ ((t.take d.position).drop c.position ++ t.drop d.position)) := by
        rw [← hwhole, hstop, index_eq hc]
    _ = (t.take d.position).drop c.position := Span.slice_append _ _ _

/-- The cursor stands between two characters of the text `t`, at the byte that its index names. -/
structure Placed (t : Text) (c : Cursor) : Prop where
  /-- The index is the size of the characters in front of the cursor. -/
  index_eq : c.index = Text.size (t.take c.position)
  /-- The index lies on a boundary between two characters. -/
  boundary : Text.dropBytes? c.index t = some (t.drop c.position)
  index_le : c.index ≤ Text.size t
  /-- The index is that of the end exactly at the end. -/
  index_eq_size_iff : c.index = Text.size t ↔ c.atEnd = true

/-- A cursor in a text is placed in it. With the index as the size of what was passed, there is
nothing more to it. -/
theorem placed_of_text_eq (h : c.text = t) : Placed t c := by
  have hindex := index_eq h
  have hsize : Text.size t = c.index + Text.size c.ahead := by
    rw [ahead_eq h, hindex, ← Text.size_append, List.take_append_drop]
  refine ⟨hindex, ?_, Nat.le.intro hsize.symm, ?_⟩
  · have hdrop := Text.dropBytes?_size (t.take c.position) (t.drop c.position)
    rwa [List.take_append_drop, ← hindex] at hdrop
  · rw [hsize, atEnd, List.isEmpty_iff, ← Text.size_eq_zero]
    omega

end Cursor

namespace Session

variable {t : Text}

/-! ### What every step keeps -/

mutual

/-- A step keeps the text, and it makes a mark where the cursor stands only. So every mark of a
session is a place of its text. -/
theorem Sound.step {s : Session} (h : Sound t s) (step : Step) : Sound t (step.run s).2 := by
  cases step with
  | look | written | slice => exact h
  | advance => exact h.moved (Cursor.text_advance s.cursor)
  | passWord word => exact h.moved (Cursor.text_passWord word s.cursor)
  | mark =>
      refine ⟨h.text_eq, List.forall_mem_append.2 ⟨h.marks_le, List.forall_mem_singleton.2 ?_⟩⟩
      exact h.text_eq ▸ s.cursor.position_le_length
  | rewind n =>
      rw [Step.run]
      split
      · exact h.moved (Cursor.text_moveTo _ s.cursor)
      · exact h
  | attempt steps succeeds =>
      -- The marks made inside stay, whether or not the cursor goes back.
      have hinside := h.steps steps
      refine hinside.moved ?_
      have hsame : (Step.runAll s steps).2.cursor.text = s.cursor.text :=
        hinside.text_eq.trans h.text_eq.symm
      exact (Cursor.text_settle succeeds hsame).trans hsame.symm

/-- So does a list of steps, by induction on it, and with that the steps of an attempt. -/
theorem Sound.steps {s : Session} (h : Sound t s) (steps : List Step) :
    Sound t (Step.runAll s steps).2 := by
  cases steps with
  | nil => exact h
  | cons step steps => exact (h.step step).steps steps

end

/-- Wherever a program comes to, the text is the same and the marks are in it. -/
theorem Reaches.sound {s u : Session} {steps rest : List Step} (h : Reaches s steps u rest)
    (hs : Sound t s) : Sound t u := by
  induction h with
  | here => exact hs
  | later _ ih => exact ih (hs.step _)
  | inside _ ih => exact ih hs

/-! ### Attempts -/

/-- A failed attempt leaves the cursor as it was, whatever its steps did, rewinds and inner attempts
among them. -/
theorem Sound.cursor_failed {s : Session} (h : Sound t s) (steps : List Step) :
    ((Step.attempt steps false).run s).2.cursor = s.cursor :=
  Cursor.settle_false s.cursor _ ((h.steps steps).text_eq.trans h.text_eq.symm)

/-- A rewind leads to the place of its mark, in either direction. Marks of a sound session are never
behind the end. -/
theorem Sound.position_rewind {s : Session} (h : Sound t s) {n : Nat} {m : Mark}
    (hm : s.marks[n]? = some m) : ((Step.rewind n).run s).2.cursor.position = m.position := by
  rw [Step.run, hm]
  refine Cursor.position_moveTo m s.cursor ?_
  rw [h.text_eq]
  exact h.marks_le m (List.mem_of_getElem? hm)

end Session

open Session

/-- Any text, and any program of steps on it. Wherever the program comes to, inside attempts too,
the cursor stands between two characters of the text. A rewind leads to the place of its mark. An
attempt that fails leaves the index, the end and everything that can be seen as they were, and one
that succeeds keeps the place that its steps have come to. A slice between the indexes of two places
is made of the characters between the two. -/
theorem reaches_placed (t : Text) (steps : List Step) :
    (∀ (u : Session) (rest : List Step), Reaches (.ofText t) steps u rest →
      u.cursor.Placed t ∧
      (∀ (n : Nat) (m : Mark), u.marks[n]? = some m →
        ((Step.rewind n).run u).2.cursor.position = m.position) ∧
      (∀ inner : List Step,
        ((Step.attempt inner false).run u).2.cursor.index = u.cursor.index ∧
        ((Step.attempt inner false).run u).2.cursor.atEnd = u.cursor.atEnd ∧
        ∀ i : Int, ((Step.attempt inner false).run u).2.cursor.look i = u.cursor.look i) ∧
      ∀ inner : List Step,
        ((Step.attempt inner true).run u).2.cursor = (Step.runAll u inner).2.cursor) ∧
    ∀ (u v w : Session) (rest rest' rest'' : List Step), Reaches (.ofText t) steps u rest →
      Reaches (.ofText t) steps v rest' → Reaches (.ofText t) steps w rest'' →
        u.cursor.index ≤ v.cursor.index →
          w.cursor.slice u.cursor.index v.cursor.index
            = (t.take v.cursor.position).drop u.cursor.position := by
  -- Every place that is reached is in the text, and the rest follows from that.
  have sound : ∀ {u : Session} {rest : List Step}, Reaches (.ofText t) steps u rest → Sound t u :=
    fun hreach => hreach.sound (sound_ofText t)
  constructor
  · intro u rest hreach
    have hu := sound hreach
    refine ⟨Cursor.placed_of_text_eq hu.text_eq, fun n m hm => hu.position_rewind hm, ?_,
      fun inner => rfl⟩
    intro inner
    rw [hu.cursor_failed inner]
    exact ⟨rfl, rfl, fun i => rfl⟩
  · intro u v w rest rest' rest'' hu hv hw hle
    rw [Cursor.slice, (sound hw).text_eq]
    exact Cursor.slice_between (sound hu).text_eq (sound hv).text_eq hle

/-- Inside a failing attempt a rewind leads back in front of it, and another one forward again to a
mark that was made in there. -/
def detour : List Step :=
  [.mark, .advance, .attempt [.advance, .mark, .rewind 0, .rewind 1, .advance] false]

/-- The places in front of the attempt and at its end, behind a letter of two bytes. -/
theorem reaches_placed_detour :
    ∃ (u v : Session) (rest rest' : List Step),
      Reaches (.ofText "tй'x".toList) detour u rest ∧
      Reaches (.ofText "tй'x".toList) detour v rest' ∧
      u.cursor.index = 1 ∧ v.cursor.index = 4 ∧ u.cursor.Placed "tй'x".toList ∧
      v.cursor.slice 1 4 = "й'".toList ∧
      ((Step.attempt [.advance, .mark, .rewind 0, .rewind 1, .advance] false).run u).2.cursor.index
        = 1 := by
  have hu : Reaches (.ofText "tй'x".toList) detour _ _ := .later (.later .here)
  -- The path into the attempt, step by step.
  have hv : Reaches (.ofText "tй'x".toList) detour _ _ :=
    .later (.later (.inside (.later (.later (.later (.later (.later .here)))))))
  obtain ⟨placed, sliced⟩ := reaches_placed "tй'x".toList detour
  obtain ⟨hplaced, -, hfailed, -⟩ := placed _ _ hu
  refine ⟨_, _, _, _, hu, hv, rfl, rfl, hplaced, ?_, (hfailed _).1.trans rfl⟩
  exact (sliced _ _ _ _ _ _ hu hv hv (by decide)).trans rfl

end GeneratedKeys
