import LiziOS.Kernel.IoQueueSafety
import LiziOS.Kernel.Keyboard
import Mathlib.Data.List.Induction

namespace LiziOS

/-! Which modifier keys the handler takes to be held. -/

/-- A key, by its make code; an extended one sends 0xe0 first. The break code of 0x60 would be that prefix. -/
structure Key where
  code : U8
  extended : Bool
  proper : 0 < code ∧ code < 0x80 ∧ code ≠ 0x60
  deriving DecidableEq

/-- A press or a release; a key that stays down is pressed again and again. -/
structure KeyEvent where
  key : Key
  down : Bool
  deriving DecidableEq

namespace Keyboard

def shiftKeys : List Key := [⟨0x2a, false, by decide⟩, ⟨0x36, false, by decide⟩]
def ctrlKeys : List Key := [⟨0x1d, false, by decide⟩, ⟨0x1d, true, by decide⟩]
def altKeys : List Key := [⟨0x38, false, by decide⟩, ⟨0x38, true, by decide⟩]

end Keyboard

open Keyboard

def KeyEvent.bytes (e : KeyEvent) : List U8 :=
  (if e.key.extended then [0xe0] else []) ++ [if e.down then e.key.code else e.key.code ||| 0x80]

/-- The scan code that the handler puts together. -/
def Key.scancode (key : Key) : U16 :=
  if key.extended then 0xe000 ||| key.code.setWidth 16 else key.code.setWidth 16

variable {f : KeyStatus} {key : Key} {e : KeyEvent} {events : List KeyEvent} {keys : List Key}

theorem scancode_codes (key : Key) : key.scancode &&& 0x0080 = 0 ∧
    (key.scancode ||| 0x80) &&& 0x0080 ≠ 0 ∧ (key.scancode ||| 0x80) &&& 0xff7f = key.scancode := by
  obtain ⟨code, extended, proper⟩ := key
  unfold Key.scancode
  revert code extended
  decide +kernel

def isCtrl (scancode : U16) : Prop := scancode = ctrlLMake ∨ scancode = ctrlRMake
def isShift (scancode : U16) : Prop := scancode = shiftLMake ∨ scancode = shiftRMake
def isAlt (scancode : U16) : Prop := scancode = altLMake ∨ scancode = altRMake

theorem pair_scancodes (key : Key) : (key ∈ ctrlKeys ↔ isCtrl key.scancode) ∧
    (key ∈ shiftKeys ↔ isShift key.scancode) ∧ (key ∈ altKeys ↔ isAlt key.scancode) := by
  obtain ⟨code, extended, proper⟩ := key
  unfold Key.scancode ctrlKeys shiftKeys altKeys isCtrl isShift isAlt
  simp only [List.mem_cons, List.not_mem_nil, or_false, Key.mk.injEq]
  revert code extended
  decide +kernel

/-- The make codes that are looked up in the key map. -/
def mapped (scancode : U16) : Prop :=
  (0 < scancode ∧ scancode < 0x3b) ∨ scancode = altRMake ∨ scancode = ctrlRMake

/-- A modifier key is looked up, has no character, and is told by the low byte as well. -/
theorem modifier_codes (key : Key) :
    (isCtrl key.scancode ∨ isShift key.scancode ∨ isAlt key.scancode →
      mapped key.scancode ∧ ∀ shift, curChar (key.scancode &&& 0x00ff) shift = 0) ∧
    (mapped key.scancode → (isCtrl (key.scancode &&& 0x00ff) ↔ isCtrl key.scancode) ∧
      (isShift (key.scancode &&& 0x00ff) ↔ isShift key.scancode) ∧
      (isAlt (key.scancode &&& 0x00ff) ↔ isAlt key.scancode)) := by
  obtain ⟨code, extended, proper⟩ := key
  unfold Key.scancode isCtrl isShift isAlt mapped
  revert code extended
  decide +kernel

/-- A key of a pair sets or clears its flag; nothing else happens to the three flags. -/
structure Turned (f : KeyStatus) (key : Key) (down : Bool) (g : KeyStatus) : Prop where
  ctrl : g.ctrlStatus = if key ∈ ctrlKeys then down else f.ctrlStatus
  shift : g.shiftStatus = if key ∈ shiftKeys then down else f.shiftStatus
  alt : g.altStatus = if key ∈ altKeys then down else f.altStatus
  ext : g.extScancode = f.extScancode

theorem pairs_apart (scancode : U16) : (isCtrl scancode → ¬ isShift scancode ∧ ¬ isAlt scancode) ∧
    (isShift scancode → ¬ isAlt scancode) := by
  unfold isCtrl isShift isAlt
  constructor
  · rintro (rfl | rfl) <;> decide
  · rintro (rfl | rfl) <;> decide

theorem released_turned (f : KeyStatus) (key : Key) : Turned f key false (f.released key.scancode) := by
  obtain ⟨ctrl, shift, alt⟩ := pair_scancodes key
  obtain ⟨notCtrl, notShift⟩ := pairs_apart key.scancode
  constructor <;> grind [KeyStatus.released, isCtrl, isShift, isAlt]

/-- Caps lock apart, whose flag is none of the three. -/
theorem pressed_turned (f : KeyStatus) (key : Key) (scancode : U16) (ctrl : isCtrl scancode ↔ key ∈ ctrlKeys)
    (shift : isShift scancode ↔ key ∈ shiftKeys) (alt : isAlt scancode ↔ key ∈ altKeys) :
    Turned f key true (f.pressed scancode) := by
  obtain ⟨notCtrl, notShift⟩ := pairs_apart scancode
  constructor <;> grind [KeyStatus.pressed, isCtrl, isShift, isAlt]

theorem other_turned (f : KeyStatus) (key : Key)
    (other : ¬ (isCtrl key.scancode ∨ isShift key.scancode ∨ isAlt key.scancode)) (down : Bool) :
    Turned f key down f := by
  obtain ⟨ctrl, shift, alt⟩ := pair_scancodes key
  rw [not_or, not_or, ← ctrl, ← shift, ← alt] at other
  exact ⟨(if_neg other.1).symm, (if_neg other.2.1).symm, (if_neg other.2.2).symm, rfl⟩

theorem decode_break (f : KeyStatus) (key : Key) : Turned f key false (f.decode (key.scancode ||| 0x80)).1 := by
  obtain ⟨-, break_, make⟩ := scancode_codes key
  unfold KeyStatus.decode
  rw [if_pos break_, make]
  exact released_turned f key

theorem decode_make (f : KeyStatus) (key : Key) : Turned f key true (f.decode key.scancode).1 := by
  obtain ⟨make, -, -⟩ := scancode_codes key
  obtain ⟨modifier, low⟩ := modifier_codes key
  obtain ⟨ctrl, shift, alt⟩ := pair_scancodes key
  unfold KeyStatus.decode
  rw [if_neg (not_not.mpr make)]
  by_cases lookedUp : mapped key.scancode
  · obtain ⟨ctrl', shift', alt'⟩ := low lookedUp
    have there := lookedUp
    unfold mapped at there
    rw [if_pos there]
    by_cases byte : curChar (key.scancode &&& 0x00ff) (f.shift key.scancode) ≠ 0
    · rw [if_pos byte]
      exact other_turned f key (fun is => byte ((modifier is).2 _)) true
    · rw [if_neg byte]
      exact pressed_turned f key _ (ctrl'.trans ctrl.symm) (shift'.trans shift.symm) (alt'.trans alt.symm)
  · have nowhere := lookedUp
    unfold mapped at nowhere
    rw [if_neg nowhere]
    exact other_turned f key (fun is => lookedUp (modifier is).1) true

/-- The status after some bytes. -/
def KeyStatus.scans (f : KeyStatus) (bytes : List U8) : KeyStatus := bytes.foldl (fun f byte => (f.scan byte).1) f

/-- The last byte of an event. -/
def KeyEvent.code (e : KeyEvent) : U8 := if e.down then e.key.code else e.key.code ||| 0x80

def KeyEvent.scancode (e : KeyEvent) : U16 := if e.down then e.key.scancode else e.key.scancode ||| 0x80

theorem event_codes (e : KeyEvent) : (e.code.setWidth 16 : U16) ≠ 0xe0 ∧
    e.scancode = if e.key.extended then 0xe000 ||| e.code.setWidth 16 else e.code.setWidth 16 := by
  obtain ⟨⟨code, extended, proper⟩, down⟩ := e
  unfold KeyEvent.code KeyEvent.scancode Key.scancode
  revert code extended down
  decide +kernel

theorem decode_event (f : KeyStatus) (e : KeyEvent) : Turned f e.key e.down (f.decode e.scancode).1 := by
  obtain ⟨key, down⟩ := e
  cases down with
  | true => exact decode_make f key
  | false => exact decode_break f key

theorem scan_event (f : KeyStatus) (complete : f.extScancode = false) (e : KeyEvent) :
    Turned f e.key e.down (f.scans e.bytes) := by
  obtain ⟨noPrefix, scancode⟩ := event_codes e
  have event := decode_event f e
  have bytes : e.bytes = (if e.key.extended then [0xe0] else []) ++ [e.code] := rfl
  rw [scancode] at event
  rw [bytes]
  cases extended : e.key.extended with
  | false =>
    rw [extended, if_neg (by decide)] at event
    have scanned : f.scans ([] ++ [e.code]) = (f.scan e.code).1 := rfl
    rw [if_neg (by decide), scanned, KeyStatus.scan, if_neg noPrefix, complete, if_neg (by decide)]
    exact event
  | true =>
    rw [extended, if_pos rfl] at event
    have scanned : f.scans ([0xe0] ++ [e.code]) = (({ f with extScancode := true } : KeyStatus).scan e.code).1 := rfl
    have same : ({ f with extScancode := false } : KeyStatus) = f := by
      rw [← complete]
    rw [if_pos rfl, scanned, KeyStatus.scan, if_neg noPrefix, if_pos rfl]
    change Turned f e.key e.down (({ f with extScancode := false } : KeyStatus).decode _).1
    rw [same]
    exact event

/-- Whether the last event of these keys was a press. -/
def lastDown (keys : List Key) (events : List KeyEvent) : Bool :=
  (events.reverse.find? fun e => e.key ∈ keys).any fun e => e.down

theorem lastDown_snoc (keys : List Key) (events : List KeyEvent) (e : KeyEvent) :
    lastDown keys (events ++ [e]) = if e.key ∈ keys then e.down else lastDown keys events := by
  unfold lastDown
  rw [List.reverse_append, List.reverse_singleton, List.singleton_append]
  by_cases member : e.key ∈ keys
  · rw [if_pos member, List.find?_cons_of_pos (by simpa using member)]
    rfl
  · rw [if_neg member, List.find?_cons_of_neg (by simpa using member)]

def held (events : List KeyEvent) (key : Key) : Bool := lastDown [key] events

/-- Only a key that is held is released. -/
def Plausible (events : List KeyEvent) : Prop :=
  ∀ before e, before ++ [e] <+: events → e.down = false → held before e.key = true

/-- No two of the keys are ever held together. -/
def OneAtATime (keys : List Key) (events : List KeyEvent) : Prop :=
  ∀ before, before <+: events → ∀ key ∈ keys, ∀ other ∈ keys, held before key = true → held before other = true →
    key = other

theorem held_snoc (events : List KeyEvent) (e : KeyEvent) (key : Key) :
    held (events ++ [e]) key = if e.key = key then e.down else held events key := by
  unfold held
  rw [lastDown_snoc]
  simp only [List.mem_singleton]

/-- Of keys that are held one at a time, one is held when the last event of them all was a press. -/
theorem lastDown_held (real : Plausible events) (one : OneAtATime keys events) :
    lastDown keys events = true ↔ ∃ key ∈ keys, held events key = true := by
  induction events using List.reverseRecOn with
  | nil => simp [lastDown, held]
  | append_singleton events e ih =>
    have earlier : events <+: events ++ [e] := List.prefix_append _ _
    have ih := ih (fun before d inside => real before d (inside.trans earlier))
      fun before inside => one before (inside.trans earlier)
    rw [lastDown_snoc]
    by_cases member : e.key ∈ keys
    · rw [if_pos member]
      constructor
      · intro down
        exact ⟨e.key, member, by rw [held_snoc, if_pos rfl, down]⟩
      · rintro ⟨key, inside, isHeld⟩
        rw [held_snoc] at isHeld
        by_cases same : e.key = key
        · rw [if_pos same] at isHeld
          exact isHeld
        · rw [if_neg same] at isHeld
          cases down : e.down with
          | true => rfl
          | false =>
            have both := real events e (List.prefix_refl _) down
            exact absurd (one events earlier _ member _ inside both isHeld) same
    · rw [if_neg member, ih]
      have same (key : Key) (inside : key ∈ keys) : held (events ++ [e]) key = held events key := by
        rw [held_snoc, if_neg]
        rintro rfl
        exact member inside
      constructor
      · rintro ⟨key, inside, isHeld⟩
        exact ⟨key, inside, (same key inside).trans isHeld⟩
      · rintro ⟨key, inside, isHeld⟩
        exact ⟨key, inside, (same key inside).symm.trans isHeld⟩

/-- The flags tell the last event of each pair. -/
structure Tracks (events : List KeyEvent) (f : KeyStatus) : Prop where
  ctrl : f.ctrlStatus = lastDown ctrlKeys events
  shift : f.shiftStatus = lastDown shiftKeys events
  alt : f.altStatus = lastDown altKeys events
  ext : f.extScancode = false

theorem Tracks.next (tracks : Tracks events f) (e : KeyEvent) : Tracks (events ++ [e]) (f.scans e.bytes) := by
  obtain ⟨ctrl, shift, alt, ext⟩ := scan_event f tracks.ext e
  constructor
  · rw [ctrl, lastDown_snoc, tracks.ctrl]
  · rw [shift, lastDown_snoc, tracks.shift]
  · rw [alt, lastDown_snoc, tracks.alt]
  · rw [ext, tracks.ext]

theorem scans_events (start : Tracks [] f) (events : List KeyEvent) :
    Tracks events (f.scans (events.flatMap KeyEvent.bytes)) := by
  induction events using List.reverseRecOn with
  | nil => exact start
  | append_singleton events e ih =>
    have split : f.scans ((events ++ [e]).flatMap KeyEvent.bytes) =
        (f.scans (events.flatMap KeyEvent.bytes)).scans e.bytes := by
      rw [List.flatMap_append, List.flatMap_singleton]
      exact List.foldl_append
    rw [split]
    exact ih.next e

/-! Runs of the whole system. -/

namespace Keyboard

variable {T : Type*} [DecidableEq T] {s t : Keyboard T} {acts : List (KeyAct × Option T)} {wanted : Option T}

/-- The bytes that the keyboard has sent. -/
def sent : List (KeyAct × Option T) → List U8
  | [] => []
  | (.scan byte, _) :: acts => byte :: sent acts
  | _ :: acts => sent acts

theorem put_status {byte : U8} (done : s.put wanted byte = .ok t) : t.status = s.status := by
  unfold put at done
  split at done
  · obtain ⟨kbdBuf, -, rfl⟩ := map_completed done
    rfl
  · cases done
    rfl

theorem handler_status {byte : U8} (done : s.intrKeyboardHandler wanted byte = .ok t) :
    t.status = (s.status.scan byte).1 := by
  unfold intrKeyboardHandler at done
  split at done
  rename_i status effect scanned
  rw [scanned]
  cases effect with
  | none => cases done; rfl
  | char byte => exact put_status done
  | unknownKey => cases done; rfl

theorem others_status {act : IoAct × Option T} (stepped : s.others act = some (.ok t)) : t.status = s.status := by
  obtain ⟨result, -, done⟩ := Option.map_eq_some_iff.mp stepped
  obtain ⟨kbdBuf, -, rfl⟩ := map_completed done
  rfl

/-- Only what the keyboard sends changes the status variables. -/
theorem execute_status (executed : (system T).execute s acts = some t) : t.status = s.status.scans (sent acts) := by
  induction acts generalizing s with
  | nil => cases executed; rfl
  | cons act acts ih =>
    rw [Transition.System.execute] at executed
    split at executed
    · rename_i u stepped
      rw [ih executed]
      obtain ⟨act, wanted⟩ := act
      cases act with
      | scan byte =>
        change (if _ then some (s.intrKeyboardHandler wanted byte) else none) = _ at stepped
        split at stepped
        · rw [handler_status (Option.some.inj stepped)]
          rfl
        · contradiction
      | getchar => rw [others_status stepped]; rfl
      | clock => rw [others_status stepped]; rfl
      | resume => rw [others_status stepped]; rfl
    · contradiction

/-- After every complete event each flag tells the last event of its pair of keys; so it tells whether one of
    them is held, unless both have been held together. -/
theorem modifier_flags {events : List KeyEvent} (released : Tracks [] s.status)
    (executed : (system T).execute s acts = some t) (bytes : sent acts = events.flatMap KeyEvent.bytes) :
    (t.status.shiftStatus = lastDown shiftKeys events ∧ t.status.ctrlStatus = lastDown ctrlKeys events ∧
      t.status.altStatus = lastDown altKeys events) ∧
    (Plausible events →
      (OneAtATime shiftKeys events → (t.status.shiftStatus = true ↔ ∃ key ∈ shiftKeys, held events key = true)) ∧
      (OneAtATime ctrlKeys events → (t.status.ctrlStatus = true ↔ ∃ key ∈ ctrlKeys, held events key = true)) ∧
      (OneAtATime altKeys events → (t.status.altStatus = true ↔ ∃ key ∈ altKeys, held events key = true))) := by
  have tracks := scans_events released events
  rw [← bytes, ← execute_status executed] at tracks
  refine ⟨⟨tracks.shift, tracks.ctrl, tracks.alt⟩, fun real => ⟨fun one => ?_, fun one => ?_, fun one => ?_⟩⟩
  · rw [tracks.shift]
    exact lastDown_held real one
  · rw [tracks.ctrl]
    exact lastDown_held real one
  · rw [tracks.alt]
    exact lastDown_held real one

/-- Nothing is typed yet. -/
def quiet : Keyboard Nat := ⟨⟨false, false, false, false, false⟩, IoState.threeThreads, 0, []⟩

theorem quiet_start : (system Nat).start quiet := ⟨rfl, IoState.threeThreads_start, rfl, rfl⟩

def leftDown : KeyEvent := ⟨⟨0x2a, false, by decide⟩, true⟩
def rightDown : KeyEvent := ⟨⟨0x36, false, by decide⟩, true⟩
def rightUp : KeyEvent := ⟨⟨0x36, false, by decide⟩, false⟩

theorem modifier_flags_shift : ∃ t, (system Nat).execute quiet [(.scan 0x2a, none)] = some t ∧
    t.status.shiftStatus = true := by
  obtain ⟨t, executed⟩ : ∃ t, (system Nat).execute quiet [(.scan 0x2a, none)] = some t := ⟨_, rfl⟩
  have released : Tracks [] quiet.status := ⟨rfl, rfl, rfl, rfl⟩
  have bytes : sent [((.scan 0x2a : KeyAct), (none : Option Nat))] = [leftDown].flatMap KeyEvent.bytes := rfl
  exact ⟨t, executed, (modifier_flags released executed bytes).1.1.trans (by decide)⟩

/-- Both shift keys go down and the right one comes up again: the left one is still held, and the flag is
    false. -/
theorem shift_forgotten : ∃ t, (system Nat).execute quiet
      [(.scan 0x2a, none), (.scan 0x36, none), (.scan 0xb6, none)] = some t ∧
    sent [((.scan 0x2a : KeyAct), (none : Option Nat)), (.scan 0x36, none), (.scan 0xb6, none)] =
      [leftDown, rightDown, rightUp].flatMap KeyEvent.bytes ∧
    Plausible [leftDown, rightDown, rightUp] ∧ held [leftDown, rightDown, rightUp] leftDown.key = true ∧
    t.status.shiftStatus = false := by
  refine ⟨_, rfl, rfl, fun before e inside up => ?_, by decide, by decide⟩
  rcases before with _ | ⟨a, _ | ⟨b, _ | ⟨c, rest⟩⟩⟩
  · obtain rfl : e = leftDown := by simpa using inside
    contradiction
  · obtain ⟨-, rfl⟩ : a = leftDown ∧ e = rightDown := by simpa using inside
    contradiction
  · obtain ⟨rfl, rfl, rfl⟩ : a = leftDown ∧ b = rightDown ∧ e = rightUp := by simpa using inside
    decide
  · simp at inside

end Keyboard

end LiziOS
