import PpoOS.Device.Keyboard
import Mathlib.Data.List.Infix

/-!
# Modifiers and the keys that are held

A keyboard sends a code when a key goes down and another when it comes up.  The keys
of the right half of a modifier pair that send `0xE0` first are told apart from those
on the left only by that byte, which `keyboard_read_char` skips.

`Tracks` says that the flags of the driver are right after a stream of events.  Each
modifier has one flag for all the keys that send its codes: the flag is whether the
last of these events was a press (`flag_concat`).  **`modifiers_track_iff`**: that is
right after every event exactly where no modifier comes up while another key of the
same modifier is still down.
-/

namespace PpoOS

/-! ## Streams of key events -/

/-- A key: its code in set 1, and whether `0xE0` comes first. -/
structure Key where
  extended : Bool
  code : BitVec 7
deriving DecidableEq

inductive KeyEvent where
  | press (k : Key)
  | release (k : Key)
deriving DecidableEq

namespace KeyEvent

def key : KeyEvent → Key
  | press k => k
  | release k => k

def isPress : KeyEvent → Bool
  | press _ => true
  | release _ => false

/-- The scancodes of an event. -/
def scancodes : KeyEvent → List U8
  | press k => (if k.extended then [0xE0#8] else []) ++ [k.code.setWidth 8]
  | release k => (if k.extended then [0xE0#8] else []) ++ [k.code.setWidth 8 ||| 0x80#8]

/-- Whether the key `k` is held after an event. -/
def holds (held : Bool) (k : Key) (e : KeyEvent) : Bool := if e.key = k then e.isPress else held

end KeyEvent

/-- The key is held after the events: the last one of its own is a press. -/
def held (es : List KeyEvent) (k : Key) : Bool := es.foldl (fun h e => e.holds h k) false

/-- `key_state` after the scancodes of the events. -/
def keyStateAfter (es : List KeyEvent) : KeyState :=
  (es.flatMap KeyEvent.scancodes).foldl (fun s sc => (keyboardReadChar s sc).2) .zero

/-! ## Modifiers -/

inductive Modifier where
  | ctrl
  | shift
  | alt
deriving DecidableEq

namespace Modifier

/-- The keys of a modifier: two for each. -/
def keys : Modifier → List Key
  | ctrl => [⟨false, 0x1D#7⟩, ⟨true, 0x1D#7⟩]
  | shift => [⟨false, 0x2A#7⟩, ⟨false, 0x36#7⟩]
  | alt => [⟨false, 0x38#7⟩, ⟨true, 0x38#7⟩]

/-- The codes that set and clear its flag. -/
def codes : Modifier → List (BitVec 7)
  | ctrl => [0x1D#7]
  | shift => [0x2A#7, 0x36#7]
  | alt => [0x38#7]

/-- What the driver says of it. -/
def flag (s : KeyState) : Modifier → Bool
  | ctrl => keyboardCtrlPressed s
  | shift => keyboardShiftPressed s
  | alt => keyboardAltPressed s

/-- One of its keys is held. -/
def isHeld (m : Modifier) (es : List KeyEvent) : Bool := m.keys.any (held es)

theorem code_of_mem {m : Modifier} {k : Key} (h : k ∈ m.keys) : k.code ∈ m.codes := by
  cases m <;> simp [keys, codes] at h ⊢ <;> rcases h with rfl | rfl <;> simp

end Modifier

variable {es : List KeyEvent} {e : KeyEvent} {k : Key} {m : Modifier} {s : KeyState}

theorem held_concat : held (es ++ [e]) k = e.holds (held es k) k := by
  rw [held, held, List.foldl_append]
  rfl

/-- An event of another code leaves a modifier as it is. -/
theorem isHeld_concat_other (h : e.key.code ∉ m.codes) : m.isHeld (es ++ [e]) = m.isHeld es := by
  unfold Modifier.isHeld
  rw [Bool.eq_iff_iff, List.any_eq_true, List.any_eq_true]
  refine exists_congr fun k => and_congr_right fun hk => ?_
  have hne : e.key ≠ k := fun heq => h (heq ▸ Modifier.code_of_mem hk)
  rw [held_concat, KeyEvent.holds, if_neg hne]

/-! ## The flags -/

/-- The byte that comes first for some keys changes nothing. -/
theorem keyboardReadChar_extended (s : KeyState) : (keyboardReadChar s 0xE0#8).2 = s := rfl

theorem codeByte_inj {c d : BitVec 7} : c.setWidth 8 = d.setWidth 8 ↔ c = d := by
  refine ⟨fun h => ?_, fun h => h ▸ rfl⟩
  apply BitVec.eq_of_toNat_eq
  have hc := c.isLt
  have hd := d.isLt
  have hn := congrArg BitVec.toNat h
  rw [BitVec.toNat_setWidth, BitVec.toNat_setWidth] at hn
  omega

/-- The high bit tells presses from releases, and the other bits are the code. -/
theorem codeByte_bits (c : BitVec 7) : c.setWidth 8 &&& 0x80#8 = 0#8 ∧
    (c.setWidth 8 ||| 0x80#8) &&& 0x80#8 ≠ 0#8 ∧ (c.setWidth 8 ||| 0x80#8) &&& 0x7F#8 = c.setWidth 8 := by
  revert c
  decide +kernel

/-- The codes of the modifiers, as bytes. -/
theorem modifier_bytes (c : BitVec 7) : (c.setWidth 8 = scancodeCtrl ↔ c = 0x1D#7) ∧
    (c.setWidth 8 = scancodeLshift ↔ c = 0x2A#7) ∧ (c.setWidth 8 = scancodeRshift ↔ c = 0x36#7) ∧
      (c.setWidth 8 = scancodeAlt ↔ c = 0x38#7) :=
  ⟨codeByte_inj (d := 0x1D#7), codeByte_inj (d := 0x2A#7), codeByte_inj (d := 0x36#7), codeByte_inj (d := 0x38#7)⟩

/-- A code that is none of the four. -/
theorem Modifier.not_mem_codes {c : BitVec 7} (h₁ : c ≠ 0x1D#7) (h₂ : ¬(c = 0x2A#7 ∨ c = 0x36#7)) (h₃ : c ≠ 0x38#7)
    (m : Modifier) : c ∉ m.codes := by
  cases m
  · simpa [Modifier.codes] using h₁
  · simpa [Modifier.codes] using h₂
  · simpa [Modifier.codes] using h₃

theorem keyboardReadChar_press (s : KeyState) (c : BitVec 7) (m : Modifier) :
    m.flag (keyboardReadChar s (c.setWidth 8)).2 = if c ∈ m.codes then true else m.flag s := by
  obtain ⟨hctrl, hleft, hright, halt⟩ := modifier_bytes c
  rw [keyboardReadChar, if_neg (not_not.mpr (codeByte_bits c).1)]
  simp only [hctrl, hleft, hright, halt]
  by_cases h₁ : c = 0x1D#7
  · subst h₁
    cases m <;> rfl
  by_cases h₂ : c = 0x2A#7 ∨ c = 0x36#7
  · rcases h₂ with rfl | rfl <;> cases m <;> rfl
  by_cases h₃ : c = 0x38#7
  · subst h₃
    cases m <;> rfl
  · rw [if_neg h₁, if_neg h₂, if_neg h₃, if_neg (Modifier.not_mem_codes h₁ h₂ h₃ m)]
    simp only [apply_ite Prod.snd, ite_self]

theorem keyboardReadChar_release (s : KeyState) (c : BitVec 7) (m : Modifier) :
    m.flag (keyboardReadChar s (c.setWidth 8 ||| 0x80#8)).2 = if c ∈ m.codes then false else m.flag s := by
  obtain ⟨hctrl, hleft, hright, halt⟩ := modifier_bytes c
  obtain ⟨-, hbit, hcode⟩ := codeByte_bits c
  rw [keyboardReadChar, if_pos hbit]
  simp only [hcode, hctrl, hleft, hright, halt]
  by_cases h₁ : c = 0x1D#7
  · subst h₁
    cases m <;> rfl
  by_cases h₂ : c = 0x2A#7 ∨ c = 0x36#7
  · rcases h₂ with rfl | rfl <;> cases m <;> rfl
  by_cases h₃ : c = 0x38#7
  · subst h₃
    cases m <;> rfl
  · rw [if_neg h₁, if_neg h₂, if_neg h₃, if_neg (Modifier.not_mem_codes h₁ h₂ h₃ m)]

/-- **A flag is whether the last event with one of its codes was a press.** -/
theorem flag_concat : m.flag (keyStateAfter (es ++ [e])) =
    if e.key.code ∈ m.codes then e.isPress else m.flag (keyStateAfter es) := by
  rw [keyStateAfter, List.flatMap_append, List.flatMap_singleton, List.foldl_append]
  change m.flag (e.scancodes.foldl (fun s sc => (keyboardReadChar s sc).2) (keyStateAfter es)) = _
  cases e with
  | press k =>
    have hstep := keyboardReadChar_press (keyStateAfter es) k.code m
    obtain ⟨extended, code⟩ := k
    cases extended
    · exact hstep
    · exact hstep
  | release k =>
    have hstep := keyboardReadChar_release (keyStateAfter es) k.code m
    obtain ⟨extended, code⟩ := k
    cases extended
    · exact hstep
    · exact hstep

/-! ## Letters -/

/-- A code of a letter. -/
def IsLetter (c : BitVec 7) : Prop :=
  0x61#8 ≤ scancodeChar scancodeSet1 (c.setWidth 8) ∧ scancodeChar scancodeSet1 (c.setWidth 8) ≤ 0x7A#8

instance (c : BitVec 7) : Decidable (IsLetter c) := by unfold IsLetter; infer_instance

/-- The character of a letter: of the shift table where shift is down, else of the other one, as a control
character where ctrl is down. -/
def letterChar (shift ctrl : Bool) (c : BitVec 7) : U8 :=
  if shift = true then scancodeChar scancodeSet1Shift (c.setWidth 8)
  else if ctrl = true then scancodeChar scancodeSet1 (c.setWidth 8) - 0x61#8 + 1#8
  else scancodeChar scancodeSet1 (c.setWidth 8)

/-- No letter is a modifier, and those of the shift table are not in the range of the control characters. -/
theorem letter_codes (c : BitVec 7) (h : IsLetter c) : (c ≠ 0x1D#7 ∧ ¬(c = 0x2A#7 ∨ c = 0x36#7) ∧ c ≠ 0x38#7) ∧
    ¬scancodeChar scancodeSet1Shift (c.setWidth 8) ≥ 0x61#8 := by
  revert c
  decide +kernel

theorem keyboardReadChar_letter (s : KeyState) (c : BitVec 7) (h : IsLetter c) :
    (keyboardReadChar s (c.setWidth 8)).1 = letterChar s.shiftDown s.ctrlDown c := by
  obtain ⟨hctrl, hleft, hright, halt⟩ := modifier_bytes c
  obtain ⟨⟨h₁, h₂, h₃⟩, hupper⟩ := letter_codes c h
  rw [keyboardReadChar, if_neg (not_not.mpr (codeByte_bits c).1)]
  simp only [hctrl, hleft, hright, halt]
  rw [if_neg h₁, if_neg h₂, if_neg h₃, letterChar]
  by_cases hs : s.shiftDown = true
  · rw [if_pos hs, if_pos hs, if_neg fun hc => hupper hc.2.1]
  · rw [if_neg hs, if_neg hs]
    by_cases hc : s.ctrlDown = true
    · rw [if_pos ⟨hc, h.1, h.2⟩, if_pos hc]
    · rw [if_neg fun h => hc h.1, if_neg hc]

/-! ## When the flags are right -/

/-- The flags are those of the keys that are held, and so is the character of every letter. -/
structure Tracks (es : List KeyEvent) : Prop where
  flags : ∀ m : Modifier, m.flag (keyStateAfter es) = m.isHeld es
  letters : ∀ c, IsLetter c → (keyboardReadChar (keyStateAfter es) (c.setWidth 8)).1 =
    letterChar (Modifier.shift.isHeld es) (Modifier.ctrl.isHeld es) c

theorem Tracks.of_flags (h : ∀ m : Modifier, m.flag (keyStateAfter es) = m.isHeld es) : Tracks es := by
  refine ⟨h, fun c hc => ?_⟩
  rw [keyboardReadChar_letter _ c hc, ← h .shift, ← h .ctrl]
  rfl

/-- Every event with a code of a modifier settles whether one of its keys is held: a press is of one, or comes
while one is held, and after a release none is held. -/
def Settles (es : List KeyEvent) (e : KeyEvent) : Prop :=
  ∀ m : Modifier, e.key.code ∈ m.codes → m.isHeld (es ++ [e]) = e.isPress

theorem tracks_nil : Tracks [] := Tracks.of_flags fun m => by cases m <;> rfl

theorem tracks_concat_iff (h : Tracks es) : Tracks (es ++ [e]) ↔ Settles es e := by
  constructor
  · intro ht m hm
    rw [← ht.flags m, flag_concat, if_pos hm]
  · intro hs
    refine Tracks.of_flags fun m => ?_
    rw [flag_concat]
    by_cases hm : e.key.code ∈ m.codes
    · rw [if_pos hm, hs m hm]
    · rw [if_neg hm, isHeld_concat_other hm, h.flags m]

/-- **The modifiers are right after every event** of a stream exactly where every event of a modifier settles it:
none is released while another key of the same modifier is held, and the codes of shift do not come with `0xE0`
before them unless shift is held. -/
theorem modifiers_track_iff (es : List KeyEvent) :
    (∀ before, before <+: es → Tracks before) ↔ ∀ before e, before ++ [e] <+: es → Settles before e := by
  constructor
  · intro h before e hpre
    have hbefore := h before ((List.prefix_append before [e]).trans hpre)
    exact (tracks_concat_iff hbefore).mp (h _ hpre)
  · intro h before
    induction before using List.reverseRecOn with
    | nil => exact fun _ => tracks_nil
    | append_singleton before e ih =>
      intro hpre
      exact (tracks_concat_iff (ih ((List.prefix_append before [e]).trans hpre))).mpr (h before e hpre)

/-! ## Two keys of one modifier -/

def leftShift : Key := ⟨false, 0x2A#7⟩
def rightShift : Key := ⟨false, 0x36#7⟩

/-- Both shift keys go down, and come up one after the other. -/
def overlap : List KeyEvent := [.press leftShift, .press rightShift, .release leftShift, .release rightShift]

/-- Every key that goes down comes up again, but after the first one came up the flag is wrong. -/
theorem overlap_not_tracked : (∀ k, held overlap k = false) ∧ held (overlap.take 3) rightShift = true ∧
    keyboardShiftPressed (keyStateAfter (overlap.take 3)) = false ∧ ¬Tracks (overlap.take 3) := by
  refine ⟨fun k => ?_, by decide +kernel, by decide +kernel, fun h => ?_⟩
  · unfold held overlap leftShift rightShift
    by_cases hl : (⟨false, 0x2A#7⟩ : Key) = k
    · subst hl
      decide +kernel
    · by_cases hr : (⟨false, 0x36#7⟩ : Key) = k
      · subst hr
        decide +kernel
      · simp [KeyEvent.holds, KeyEvent.key, hl, hr]
  · exact absurd (h.flags .shift) (by decide +kernel)

end PpoOS
