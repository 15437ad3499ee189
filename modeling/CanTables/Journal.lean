import CanTables.Fault

/-!
# CanTables.Journal — computations that keep a journal and may fail

A compilation reports what it does line by line.  `Run α` is a computation that writes journal
lines and either yields an `α` or stops with a fault; what was written before a fault is kept.
The journal is an ordinary value, so a statement about what is reported is a statement about a list.
-/

namespace CanTables

open Text

/-- How important a journal line is. -/
inductive Level where
  | debug
  | info
  | warn
  | error
  deriving DecidableEq, Repr

/-- The word that marks lines of a level. -/
def Level.word : Level → String
  | .debug => "DEBUG"
  | .info => "INFO"
  | .warn => "WARN"
  | .error => "ERROR"

/-- A journal line. -/
structure Entry where
  level : Level
  text : String
  deriving DecidableEq, Repr

/-- The line as it is shown. -/
def Entry.line (e : Entry) : String := e.level.word ++ " " ++ e.text

/-- What a journal line is about: a message set, or one of its messages. -/
inductive Origin where
  | ofSet (name : String)
  | ofMessage (name : String) (id : UInt32)
  deriving DecidableEq, Repr

/-- The mark in front of lines about an origin. -/
def Origin.mark : Origin → String
  | .ofSet name => "[message_set=" ++ name ++ "] "
  | .ofMessage name id => "[message_set=" ++ name ++ ", message=0x" ++ Digits.hex id.toNat ++ "] "

/-- A journal line about an origin. -/
def Origin.entry (origin : Origin) (level : Level) (text : String) : Entry :=
  ⟨level, origin.mark ++ text⟩

/-- A computation with a journal that may stop with a fault. -/
structure Run (α : Type) where
  journal : List Entry
  outcome : Except Fault α

namespace Run

variable {α β : Type}

/-- The computation that only yields a value. -/
def pure (a : α) : Run α := ⟨[], .ok a⟩

/-- One computation after another; a fault ends the whole. -/
def bind (x : Run α) (f : α → Run β) : Run β :=
  match x.outcome with
  | .error fault => ⟨x.journal, .error fault⟩
  | .ok a => ⟨x.journal ++ (f a).journal, (f a).outcome⟩

instance : Monad Run where
  pure := pure
  bind := bind

/-- Stops with a fault. -/
def fail (fault : Fault) : Run α := ⟨[], .error fault⟩

/-- Writes lines. -/
def write (entries : List Entry) : Run Unit := ⟨entries, .ok ()⟩

/-- Writes one line about an origin. -/
def report (origin : Origin) (level : Level) (text : String) : Run Unit :=
  write [origin.entry level text]

/-- Writes one line about nothing in particular. -/
def note (level : Level) (text : String) : Run Unit := write [⟨level, text⟩]

/-- A computation without a journal. -/
def lift (x : Except Fault α) : Run α := ⟨[], x⟩

@[simp]
theorem pure_journal (a : α) : (Pure.pure a : Run α).journal = [] := rfl

@[simp]
theorem pure_outcome (a : α) : (Pure.pure a : Run α).outcome = .ok a := rfl

theorem bind_of_ok {x : Run α} {a : α} (h : x.outcome = .ok a) (f : α → Run β) :
    x >>= f = ⟨x.journal ++ (f a).journal, (f a).outcome⟩ := by
  show bind x f = _
  simp [bind, h]

theorem bind_of_error {x : Run α} {fault : Fault} (h : x.outcome = .error fault)
    (f : α → Run β) : x >>= f = ⟨x.journal, .error fault⟩ := by
  show bind x f = _
  simp [bind, h]

/-- The order of nesting does not matter. -/
instance : LawfulMonad Run := LawfulMonad.mk' Run
  (by
    intro α x
    show bind x (pure ∘ id) = x
    obtain ⟨journal, outcome⟩ := x
    cases outcome <;> simp [bind, pure])
  (by intros; rfl)
  (by
    intro α β γ x f g
    show bind (bind x f) g = bind x fun a => bind (f a) g
    obtain ⟨journal, outcome⟩ := x
    cases outcome with
    | error fault => rfl
    | ok a =>
      simp only [bind]
      cases (f a).outcome <;> simp)

end Run

end CanTables
