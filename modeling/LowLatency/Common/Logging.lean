import LowLatency.Common.LFQueue
import Mathlib.Data.List.TakeDrop
import Mathlib.Data.List.TakeWhile

/-!
# `Logger` and `OptLogger`: the text of a log line

`src/common/logging.h`, `src/common/opt_logging.h`. A call `log(format, args...)`
pushes elements into a queue, and a thread of its own (`flushQueue`) writes them
to the file. The two loggers parse the format with the same code and differ in
how they push a string: `Logger` one element a character, `OptLogger` one
element with the string copied into its `char s[256]`.

Characters are bytes. A `const char *` is the bytes from there on, up to the
first zero or to the end of the list (`cstr`), and so is `c_str()` of a
`std::string`. The floating point arguments are left out.

The flushing thread may run at any time between two pushes (`Flushed`); the one
thing asked of it is that it keeps up, so that no element is pushed into a full
queue. Then the file gets the texts of the elements in order
(`Flushed.text_eq`), and the comparison of the loggers is one of what they push.
-/

namespace LowLatency

/-- Maximum size of the lock free queue of data to be logged. -/
def LOG_QUEUE_SIZE : Nat := 8 * 1024 * 1024

/-- What is read of a `const char *`. -/
def cstr (s : List UInt8) : List UInt8 := s.takeWhile (· ≠ 0)

/-- An argument of `log`, with the overload of `pushValue` it selects. -/
inductive LogArg
  | char (c : UInt8)
  | int (i : Int)
  | long (l : Int)
  | longLong (ll : Int)
  | unsigned (u : Nat)
  | unsignedLong (ul : Nat)
  | unsignedLongLong (ull : Nat)
  | cString (s : List UInt8)
  | string (s : List UInt8)
deriving DecidableEq, Repr

/-- `file_ << n` for an integer. -/
def digits (n : Int) : List UInt8 := (toString n).toUTF8.toList

/-! ## `log` -/

/-- `%` -/
def percent : UInt8 := 37

section Log

variable {E : Type} (char : UInt8 → E) (value : LogArg → List E)

/-- A placeholder: the next argument is pushed, and the rest of the format goes
on with the others. -/
def substitute (rest : List LogArg → Exec (List E)) : List LogArg → Exec (List E)
  | [] => .error (.assertion "missing arguments to log()")
  | v :: args => do
    let es ← rest args
    return value v ++ es

/-- Parse the format string, substitute `%` with the arguments, and return the
elements pushed: `char c` for a character of the format, `value v` for an
argument. -/
def log : List UInt8 → List LogArg → Exec (List E)
  | [], [] => .ok []
  | [], _ :: _ => .error (.assertion "extra arguments provided to log()")
  | [c], args =>
    if c = percent then substitute value (log []) args
    else do
      let es ← log [] args
      return char c :: es
  | c :: d :: s, args =>
    if c = percent then
      -- to allow %% -> % escape character
      if d = percent then do
        let es ← log s args
        return char d :: es
      else substitute value (log (d :: s)) args
    else do
      let es ← log (d :: s) args
      return char c :: es

end Log

/-- The placeholders of a format: the `%` that are not escaped. -/
def placeholders : List UInt8 → Nat
  | [] => 0
  | [c] => if c = percent then 1 else 0
  | c :: d :: s =>
    if c = percent then
      if d = percent then placeholders s else placeholders (d :: s) + 1
    else placeholders (d :: s)

namespace Logger

/-- A single and primitive log entry: `type_` and the member of `u_` in use. -/
inductive LogElement
  | CHAR (c : UInt8)
  | INTEGER (i : Int)
  | LONG_INTEGER (l : Int)
  | LONG_LONG_INTEGER (ll : Int)
  | UNSIGNED_INTEGER (u : Nat)
  | UNSIGNED_LONG_INTEGER (ul : Nat)
  | UNSIGNED_LONG_LONG_INTEGER (ull : Nat)
deriving DecidableEq, Repr

/-- `pushValue`: a string is pushed character by character. -/
def pushValue : LogArg → List LogElement
  | .char c => [.CHAR c]
  | .int i => [.INTEGER i]
  | .long l => [.LONG_INTEGER l]
  | .longLong ll => [.LONG_LONG_INTEGER ll]
  | .unsigned u => [.UNSIGNED_INTEGER u]
  | .unsignedLong ul => [.UNSIGNED_LONG_INTEGER ul]
  | .unsignedLongLong ull => [.UNSIGNED_LONG_LONG_INTEGER ull]
  | .cString s => (cstr s).map .CHAR
  | .string s => (cstr s).map .CHAR

/-- What `flushQueue` writes for an element. -/
def write : LogElement → List UInt8
  | .CHAR c => [c]
  | .INTEGER i => digits i
  | .LONG_INTEGER l => digits l
  | .LONG_LONG_INTEGER ll => digits ll
  | .UNSIGNED_INTEGER u => digits u
  | .UNSIGNED_LONG_INTEGER ul => digits ul
  | .UNSIGNED_LONG_LONG_INTEGER ull => digits ull

def log (format : List UInt8) (args : List LogArg) : Exec (List LogElement) :=
  LowLatency.log .CHAR pushValue (cstr format) args

end Logger

namespace OptLogger

inductive LogElement
  | CHAR (c : UInt8)
  | INTEGER (i : Int)
  | LONG_INTEGER (l : Int)
  | LONG_LONG_INTEGER (ll : Int)
  | UNSIGNED_INTEGER (u : Nat)
  | UNSIGNED_LONG_INTEGER (ul : Nat)
  | UNSIGNED_LONG_LONG_INTEGER (ull : Nat)
  | STRING (s : List UInt8)
deriving DecidableEq, Repr

/-- `sizeof(LogElement::u_.s)` -/
def stringSize : Nat := 256

/-- The array after `strncpy(l.u_.s, value, sizeof(l.u_.s) - 1)`: at most 255
characters, and zeros from there on. -/
def strncpy (value : List UInt8) : List UInt8 :=
  (cstr value).take (stringSize - 1) ++
    List.replicate (stringSize - ((cstr value).take (stringSize - 1)).length) 0

/-- `pushValue`: a string is one element. -/
def pushValue : LogArg → List LogElement
  | .char c => [.CHAR c]
  | .int i => [.INTEGER i]
  | .long l => [.LONG_INTEGER l]
  | .longLong ll => [.LONG_LONG_INTEGER ll]
  | .unsigned u => [.UNSIGNED_INTEGER u]
  | .unsignedLong ul => [.UNSIGNED_LONG_INTEGER ul]
  | .unsignedLongLong ull => [.UNSIGNED_LONG_LONG_INTEGER ull]
  | .cString s => [.STRING (strncpy s)]
  | .string s => [.STRING (strncpy s)]

def write : LogElement → List UInt8
  | .CHAR c => [c]
  | .INTEGER i => digits i
  | .LONG_INTEGER l => digits l
  | .LONG_LONG_INTEGER ll => digits ll
  | .UNSIGNED_INTEGER u => digits u
  | .UNSIGNED_LONG_INTEGER ul => digits ul
  | .UNSIGNED_LONG_LONG_INTEGER ull => digits ull
  | .STRING s => cstr s

def log (format : List UInt8) (args : List LogArg) : Exec (List LogElement) :=
  LowLatency.log .CHAR pushValue (cstr format) args

end OptLogger

/-! ## `flushQueue` -/

section Flush

variable {E : Type} (write : E → List UInt8)

/-- The elements `es` are pushed, and the flushing thread empties the queue in
between as it gets to it and in the end; `out` is what it writes. -/
inductive Flushed : LFQueue E → List E → List UInt8 → Prop
  | push {q : LFQueue E} {x : E} {es : List E} {out : List UInt8}
      (hroom : q.size < q.capacity) (h : Flushed (q.send x) es out) : Flushed q (x :: es) out
  | flush {q q' : LFQueue E} {ptr : Nat} {es : List E} {out : List UInt8}
      (hnext : q.getNextToRead = some ptr) (hread : q.updateReadIndex = .ok q')
      (h : Flushed q' es out) : Flushed q es (write (q.store_ ptr) ++ out)
  | done {q : LFQueue E} (hempty : q.size = 0) : Flushed q [] []

variable {write}

/-- One turn of the loop of `flushQueue`. -/
theorem LFQueue.Tracks.flush {q q' : LFQueue E} {W : List E} {j ptr : Nat}
    (h : LFQueue.AtRest q W j) (hnext : q.getNextToRead = some ptr)
    (hread : q.updateReadIndex = .ok q') :
    W[j]? = some (q.store_ ptr) ∧ LFQueue.AtRest q' W (j + 1) := by
  have hcount := h.count
  have hne : q.num_elements_ ≠ 0 := by
    intro hz
    simp [LFQueue.getNextToRead, LFQueue.size, hz] at hnext
  have hj : j < W.length := by omega
  have hptr : q.next_read_index_ = ptr := by
    simpa [LFQueue.getNextToRead, LFQueue.size, hne] using hnext
  have h₁ := h.storeReadIndex
  rw [LFQueue.updateReadIndex, h₁.checkCount hj] at hread
  obtain rfl : q.storeReadIndex.countDown = q' := by simpa using hread
  exact ⟨hptr ▸ h.read hj, h₁.countDown (by omega) hj⟩

/-- **The file gets the texts of the elements in order**, whenever the flushing
thread runs. -/
theorem Flushed.text_eq {q : LFQueue E} {es : List E} {out : List UInt8}
    (hf : Flushed write q es out) : ∀ {W : List E} {j : Nat}, LFQueue.AtRest q W j →
      out = (W.drop j ++ es).flatMap write := by
  induction hf with
  | push hroom _ ih =>
    intro W j h
    have hcount := h.count
    unfold LFQueue.size at hroom
    rw [ih (h.send _ (by omega)), List.drop_append_of_le_length (by omega), List.append_assoc]
    rfl
  | flush hnext hread _ ih =>
    intro W j h
    obtain ⟨hx, h'⟩ := h.flush hnext hread
    obtain ⟨hj, hx⟩ := List.getElem?_eq_some_iff.mp hx
    rw [ih h', List.drop_eq_getElem_cons hj, hx]
    rfl
  | done hempty =>
    intro W j h
    have hcount := h.count
    unfold LFQueue.size at hempty
    rw [List.drop_eq_nil_of_le (by omega)]
    rfl

/-- A thread that empties the queue after every push keeps up. -/
theorem Flushed.exists {q : LFQueue E} {W : List E} (h : LFQueue.AtRest q W W.length)
    (hcap : 0 < q.capacity) (es : List E) : ∃ out, Flushed write q es out := by
  induction es generalizing q W with
  | nil =>
    have hcount := h.count
    exact ⟨[], .done (show q.num_elements_ = 0 by omega)⟩
  | cons x es ih =>
    have hcount := h.count
    have h₁ := h.send x (by omega)
    have hsize : (q.send x).size ≠ 0 := Nat.succ_ne_zero _
    obtain ⟨q', hread⟩ := LFQueue.updateReadIndex_ok hsize
    have hnext : (q.send x).getNextToRead = some (q.send x).next_read_index_ := if_pos hsize
    obtain ⟨_, h₂⟩ := h₁.flush hnext hread
    have hcap' : q'.capacity = q.capacity := by
      rw [LFQueue.updateReadIndex] at hread
      obtain ⟨_, _, hread⟩ := exec_bind_ok hread
      obtain rfl := Except.ok.inj hread
      rfl
    obtain ⟨out, hout⟩ := ih (W := W ++ [x]) (by simpa using h₂) (hcap' ▸ hcap)
    exact ⟨_, .push (show q.num_elements_ < q.capacity by omega) (.flush hnext hread hout)⟩

end Flush

/-- `text` is what `flushQueue` writes for the call, the queue being empty
before it. -/
def Logger.Writes (format : List UInt8) (args : List LogArg) (text : List UInt8) : Prop :=
  ∃ es, Logger.log format args = .ok es ∧
    Flushed Logger.write (LFQueue.init LOG_QUEUE_SIZE (.CHAR 0)) es text

def OptLogger.Writes (format : List UInt8) (args : List LogArg) (text : List UInt8) : Prop :=
  ∃ es, OptLogger.log format args = .ok es ∧
    Flushed OptLogger.write (LFQueue.init LOG_QUEUE_SIZE (.CHAR 0)) es text

/-! ## The texts of one format -/

section Text

variable {E : Type} {char : UInt8 → E} {value : LogArg → List E}

theorem substitute_ok {rest : List LogArg → Exec (List E)} {args : List LogArg} {es : List E}
    (h : substitute value rest args = .ok es) :
    ∃ v vs es', args = v :: vs ∧ rest vs = .ok es' ∧ es = value v ++ es' := by
  cases args with
  | nil => exact absurd h (by simp [substitute])
  | cons v vs =>
    obtain ⟨es', hrest, h⟩ := exec_bind_ok h
    obtain rfl := Except.ok.inj h
    exact ⟨v, vs, es', rfl, hrest, rfl⟩

/-- At the end of the format no argument may be left. -/
theorem log_nil_ok {args : List LogArg} {es : List E} (h : log char value [] args = .ok es) :
    args = [] ∧ es = [] := by
  cases args with
  | nil => exact ⟨rfl, (Except.ok.inj h).symm⟩
  | cons v vs => exact absurd h (by simp [log])

/-- As many arguments as placeholders get a call through. -/
theorem log_ok {s : List UInt8} {args : List LogArg} (h : args.length = placeholders s) :
    ∃ es, log char value s args = .ok es := by
  -- a placeholder takes one argument
  have hsub : ∀ {rest : List LogArg → Exec (List E)} {n : Nat} {args : List LogArg},
      args.length = n + 1 → (∀ vs, vs.length = n → ∃ es, rest vs = .ok es) →
      ∃ es, substitute value rest args = .ok es := by
    intro rest n args hlen hrest
    obtain ⟨v, vs, rfl⟩ := List.exists_cons_of_length_eq_add_one hlen
    obtain ⟨es, he⟩ := hrest vs (by simpa using hlen)
    exact ⟨value v ++ es, by simp [substitute, he]⟩
  induction s using placeholders.induct generalizing args with
  | case1 =>
    obtain rfl := List.eq_nil_of_length_eq_zero h
    exact ⟨[], rfl⟩
  | case2 =>
    refine (hsub (n := 0) (by simpa [placeholders] using h) fun vs hvs => ?_).imp
      fun es he => by simpa [log] using he
    obtain rfl := List.eq_nil_of_length_eq_zero hvs
    exact ⟨[], rfl⟩
  | case3 c hc =>
    obtain rfl := List.eq_nil_of_length_eq_zero (by simpa [placeholders, hc] using h)
    exact ⟨[char c], by simp [log, hc]⟩
  | case4 s ih =>
    obtain ⟨es, he⟩ := ih (by simpa [placeholders] using h)
    exact ⟨char percent :: es, by simp [log, he]⟩
  | case5 d s hd ih =>
    refine (hsub (by simpa [placeholders, hd] using h) fun vs hvs => ih hvs).imp
      fun es he => by simpa [log, hd] using he
  | case6 c d s hc ih =>
    obtain ⟨es, he⟩ := ih (by simpa [placeholders, hc] using h)
    exact ⟨char c :: es, by simp [log, hc, he]⟩

/-- The text of a call: `log` itself, with the bytes written for its elements in
their place. -/
theorem log_text {write : E → List UInt8} (hchar : ∀ c, write (char c) = [c]) {s : List UInt8}
    {args : List LogArg} {es : List E} (h : log char value s args = .ok es) :
    log id (fun v => (value v).flatMap write) s args = .ok (es.flatMap write) := by
  have hsub : ∀ {rest : List LogArg → Exec (List E)} {rest' : List LogArg → Exec (List UInt8)}
      {args : List LogArg} {es : List E}, substitute value rest args = .ok es →
      (∀ vs es, rest vs = .ok es → rest' vs = .ok (es.flatMap write)) →
      substitute (fun v => (value v).flatMap write) rest' args = .ok (es.flatMap write) := by
    intro rest rest' args es hs hrest
    obtain ⟨v, vs, es', rfl, he, rfl⟩ := substitute_ok hs
    simp [substitute, hrest vs es' he]
  have hnil : ∀ (args : List LogArg) (es : List E), log char value [] args = .ok es →
      log id (fun v => (value v).flatMap write) [] args = .ok (es.flatMap write) := by
    intro args es he
    obtain ⟨rfl, rfl⟩ := log_nil_ok he
    rfl
  induction s using placeholders.induct generalizing args es with
  | case1 => exact hnil args es h
  | case2 =>
    simp only [log, if_true] at h ⊢
    exact hsub h hnil
  | case3 c hc =>
    simp only [log, if_neg hc] at h ⊢
    obtain ⟨es', he, h⟩ := exec_bind_ok h
    obtain rfl := Except.ok.inj h
    simp [hnil args es' he, hchar]
  | case4 s ih =>
    simp only [log, if_true] at h ⊢
    obtain ⟨es', he, h⟩ := exec_bind_ok h
    obtain rfl := Except.ok.inj h
    simp [ih he, hchar]
  | case5 d s hd ih =>
    simp only [log, if_true, if_neg hd] at h ⊢
    exact hsub h fun vs es he => ih he
  | case6 c d s hc ih =>
    simp only [log, if_neg hc] at h ⊢
    obtain ⟨es', he, h⟩ := exec_bind_ok h
    obtain rfl := Except.ok.inj h
    simp [ih he, hchar]

/-- Two texts of one call, the arguments written as `w` and as `w'` say. -/
def Compared (w w' : LogArg → List UInt8) (args : List LogArg) (t t' : List UInt8) : Prop :=
  t'.length ≤ t.length ∧ (t' = t ↔ ∀ v ∈ args, w' v = w v)

variable {w w' : LogArg → List UInt8}

theorem Compared.cons {args : List LogArg} {t t' : List UInt8} (h : Compared w w' args t t')
    (c : UInt8) : Compared w w' args (c :: t) (c :: t') :=
  ⟨Nat.succ_le_succ h.1, by rw [List.cons_inj_right]; exact h.2⟩

/-- Neither an argument nor the rest is longer than its counterpart, so when the
whole is as long both are. -/
theorem Compared.substitute {vs : List LogArg} {t t' : List UInt8} (h : Compared w w' vs t t')
    {v : LogArg} (hle : (w' v).length ≤ (w v).length) :
    Compared w w' (v :: vs) (w v ++ t) (w' v ++ t') := by
  obtain ⟨hlen, hiff⟩ := h
  refine ⟨by simp only [List.length_append]; omega, ?_⟩
  rw [List.forall_mem_cons, ← hiff]
  constructor
  · intro heq
    have hlens := congrArg List.length heq
    simp only [List.length_append] at hlens
    exact List.append_inj heq (by omega)
  · rintro ⟨hw, rfl⟩
    rw [hw]

/-- **Two ways of writing the arguments**, one of which never writes more: the
texts are equal exactly when every argument is written alike. -/
theorem log_compared (hle : ∀ v, (w' v).length ≤ (w v).length) {s : List UInt8}
    {args : List LogArg} {t t' : List UInt8} (h : log id w s args = .ok t)
    (h' : log id w' s args = .ok t') : Compared w w' args t t' := by
  have hsub : ∀ {rest rest' : List LogArg → Exec (List UInt8)} {args : List LogArg}
      {t t' : List UInt8}, substitute w rest args = .ok t → substitute w' rest' args = .ok t' →
      (∀ vs u u', rest vs = .ok u → rest' vs = .ok u' → Compared w w' vs u u') →
      Compared w w' args t t' := by
    intro rest rest' args t t' hs hs' hrest
    obtain ⟨v, vs, u, rfl, hu, rfl⟩ := substitute_ok hs
    obtain ⟨v', vs', u', he, hu', rfl⟩ := substitute_ok hs'
    obtain ⟨rfl, rfl⟩ := List.cons.inj he
    exact (hrest vs u u' hu hu').substitute (hle v)
  have hnil : ∀ (args : List LogArg) (u u' : List UInt8), log id w [] args = .ok u →
      log id w' [] args = .ok u' → Compared w w' args u u' := by
    intro args u u' hu hu'
    obtain ⟨rfl, rfl⟩ := log_nil_ok hu
    obtain ⟨_, rfl⟩ := log_nil_ok hu'
    exact ⟨le_rfl, by simp⟩
  induction s using placeholders.induct generalizing args t t' with
  | case1 => exact hnil args t t' h h'
  | case2 =>
    simp only [log, if_true] at h h'
    exact hsub h h' hnil
  | case3 c hc =>
    simp only [log, if_neg hc] at h h'
    obtain ⟨u, hu, h⟩ := exec_bind_ok h
    obtain ⟨u', hu', h'⟩ := exec_bind_ok h'
    obtain rfl := Except.ok.inj h
    obtain rfl := Except.ok.inj h'
    exact (hnil args u u' hu hu').cons c
  | case4 s ih =>
    simp only [log, if_true] at h h'
    obtain ⟨u, hu, h⟩ := exec_bind_ok h
    obtain ⟨u', hu', h'⟩ := exec_bind_ok h'
    obtain rfl := Except.ok.inj h
    obtain rfl := Except.ok.inj h'
    exact (ih hu hu').cons percent
  | case5 d s hd ih =>
    simp only [log, if_true, if_neg hd] at h h'
    exact hsub h h' fun vs u u' hu hu' => ih hu hu'
  | case6 c d s hc ih =>
    simp only [log, if_neg hc] at h h'
    obtain ⟨u, hu, h⟩ := exec_bind_ok h
    obtain ⟨u', hu', h'⟩ := exec_bind_ok h'
    obtain rfl := Except.ok.inj h
    obtain rfl := Except.ok.inj h'
    exact (ih hu hu').cons c

end Text

/-! ## The two loggers -/

/-- A string is short enough for `char s[256]` and the zero that ends it. -/
def LogArg.Fits : LogArg → Prop
  | .cString s | .string s => (cstr s).length ≤ OptLogger.stringSize - 1
  | _ => True

theorem cstr_ne_zero {s : List UInt8} {c : UInt8} (h : c ∈ cstr s) : c ≠ 0 := by
  unfold cstr at h
  simpa using List.mem_takeWhile_imp h

/-- A string ends at its first zero. -/
theorem cstr_append_zero {s : List UInt8} (h : ∀ c ∈ s, c ≠ 0) (rest : List UInt8) :
    cstr (s ++ 0 :: rest) = s := by
  unfold cstr
  rw [List.takeWhile_append_of_pos (fun c hc => decide_eq_true (h c hc)),
    List.takeWhile_cons_of_neg (by simp), List.append_nil]

/-- `file_ << next->u_.s` writes what `strncpy` copied. -/
theorem OptLogger.cstr_strncpy (s : List UInt8) :
    cstr (strncpy s) = (cstr s).take (stringSize - 1) := by
  have hlen : ((cstr s).take (stringSize - 1)).length ≤ stringSize - 1 := List.length_take_le ..
  obtain ⟨k, hk⟩ : ∃ k, stringSize - ((cstr s).take (stringSize - 1)).length = k + 1 :=
    ⟨stringSize - ((cstr s).take (stringSize - 1)).length - 1, by
      unfold stringSize at hlen ⊢
      omega⟩
  unfold strncpy
  rw [hk, List.replicate_succ]
  exact cstr_append_zero (fun c hc => cstr_ne_zero (List.mem_of_mem_take hc)) _

/-- What each logger has written for an argument. -/
def Logger.written (v : LogArg) : List UInt8 := (pushValue v).flatMap write

def OptLogger.written (v : LogArg) : List UInt8 := (pushValue v).flatMap write

theorem Logger.write_chars (s : List UInt8) : (s.map LogElement.CHAR).flatMap write = s := by
  induction s with
  | nil => rfl
  | cons c s ih =>
    rw [List.map_cons, List.flatMap_cons, ih]
    rfl

theorem OptLogger.write_string (s : List UInt8) :
    [LogElement.STRING (strncpy s)].flatMap write = (cstr s).take (stringSize - 1) := by
  rw [List.flatMap_singleton]
  exact cstr_strncpy s

/-- `OptLogger` never writes more for an argument, and as much exactly when it
fits. -/
theorem written_compared (v : LogArg) :
    (OptLogger.written v).length ≤ (Logger.written v).length ∧
      (OptLogger.written v = Logger.written v ↔ v.Fits) := by
  -- both kinds of string are pushed alike
  have hstring : ∀ {v : LogArg} {s : List UInt8}, OptLogger.pushValue v = [.STRING (OptLogger.strncpy s)] →
      Logger.pushValue v = (cstr s).map .CHAR →
      (OptLogger.written v).length ≤ (Logger.written v).length ∧
        (OptLogger.written v = Logger.written v ↔ (cstr s).length ≤ OptLogger.stringSize - 1) := by
    intro v s ho hl
    unfold OptLogger.written Logger.written
    rw [ho, hl, OptLogger.write_string, Logger.write_chars]
    exact ⟨List.length_take_le' .., by rw [eq_comm, List.take_self_eq_iff]⟩
  cases v with
  | cString s => exact hstring rfl rfl
  | string s => exact hstring rfl rfl
  | char c => exact ⟨le_rfl, iff_of_true rfl trivial⟩
  | int i => exact ⟨le_rfl, iff_of_true rfl trivial⟩
  | long l => exact ⟨le_rfl, iff_of_true rfl trivial⟩
  | longLong ll => exact ⟨le_rfl, iff_of_true rfl trivial⟩
  | unsigned u => exact ⟨le_rfl, iff_of_true rfl trivial⟩
  | unsignedLong ul => exact ⟨le_rfl, iff_of_true rfl trivial⟩
  | unsignedLongLong ull => exact ⟨le_rfl, iff_of_true rfl trivial⟩

variable {format : List UInt8} {args : List LogArg} {text text' : List UInt8}

/-- A queue that has not been used. -/
theorem LFQueue.atRest_init {E : Type} (N : Nat) (dflt : E) : AtRest (LFQueue.init N dflt) [] 0 :=
  .init N dflt

theorem Logger.Writes.text_eq (h : Logger.Writes format args text) :
    LowLatency.log id Logger.written (cstr format) args = .ok text := by
  obtain ⟨es, hlog, hflush⟩ := h
  rw [hflush.text_eq (LFQueue.atRest_init ..)]
  exact log_text (fun _ => rfl) hlog

theorem OptLogger.Writes.text_eq (h : OptLogger.Writes format args text) :
    LowLatency.log id OptLogger.written (cstr format) args = .ok text := by
  obtain ⟨es, hlog, hflush⟩ := h
  rw [hflush.text_eq (LFQueue.atRest_init ..)]
  exact log_text (fun _ => rfl) hlog

/-- The two texts of a call. -/
theorem Writes.compared (h : Logger.Writes format args text)
    (h' : OptLogger.Writes format args text') : text' = text ↔ ∀ v ∈ args, v.Fits := by
  obtain ⟨_, hiff⟩ := log_compared (fun v => (written_compared v).1) h.text_eq h'.text_eq
  rw [hiff]
  exact forall₂_congr fun v _ => (written_compared v).2

theorem Logger.writes_exists (hn : args.length = placeholders (cstr format)) :
    ∃ text, Logger.Writes format args text := by
  obtain ⟨es, hlog⟩ : ∃ es, LowLatency.log LogElement.CHAR pushValue (cstr format) args = .ok es :=
    log_ok hn
  obtain ⟨text, hflush⟩ : ∃ text,
      Flushed write (.init LOG_QUEUE_SIZE (LogElement.CHAR 0)) es text :=
    Flushed.exists (LFQueue.atRest_init ..) (by decide) es
  exact ⟨text, es, hlog, hflush⟩

theorem OptLogger.writes_exists (hn : args.length = placeholders (cstr format)) :
    ∃ text, OptLogger.Writes format args text := by
  obtain ⟨es, hlog⟩ : ∃ es, LowLatency.log LogElement.CHAR pushValue (cstr format) args = .ok es :=
    log_ok hn
  obtain ⟨text, hflush⟩ : ∃ text,
      Flushed write (.init LOG_QUEUE_SIZE (LogElement.CHAR 0)) es text :=
    Flushed.exists (LFQueue.atRest_init ..) (by decide) es
  exact ⟨text, es, hlog, hflush⟩

/-- **The loggers write the same text** exactly when every string among the
arguments fits the array. With as many arguments as placeholders, both return
and write. -/
theorem optLogger_same_text_iff (hn : args.length = placeholders (cstr format)) :
    (∃ text, Logger.Writes format args text) ∧ (∃ text, OptLogger.Writes format args text) ∧
      ∀ text text', Logger.Writes format args text → OptLogger.Writes format args text' →
        (text' = text ↔ ∀ v ∈ args, v.Fits) :=
  ⟨Logger.writes_exists hn, OptLogger.writes_exists hn, fun _ _ h h' => Writes.compared h h'⟩

/-- Two escaped `%` and a placeholder. -/
theorem optLogger_same_text_iff_escape : ∃ text,
    Logger.Writes [37, 37, 37, 37, 37] [.string [104, 105]] text ∧
    OptLogger.Writes [37, 37, 37, 37, 37] [.string [104, 105]] text := by
  have hn : [LogArg.string [104, 105]].length = placeholders (cstr [37, 37, 37, 37, 37]) := by
    decide
  obtain ⟨⟨text, h⟩, ⟨text', h'⟩, hiff⟩ := optLogger_same_text_iff hn
  have hfits : ∀ v ∈ [LogArg.string [104, 105]], v.Fits := by
    intro v hv
    rw [List.mem_singleton.mp hv]
    show (cstr [104, 105]).length ≤ OptLogger.stringSize - 1
    decide
  rw [(hiff text text' h h').mpr hfits] at h'
  exact ⟨text, h, h'⟩

/-- A string of 256 characters loses its last one. -/
theorem optLogger_truncates : ∃ text text',
    Logger.Writes [37, 10] [.cString (List.replicate 256 120)] text ∧
    OptLogger.Writes [37, 10] [.cString (List.replicate 256 120)] text' ∧
    text = List.replicate 256 120 ++ [10] ∧ text' = List.replicate 255 120 ++ [10] := by
  have hn : [LogArg.cString (List.replicate 256 120)].length = placeholders (cstr [37, 10]) := by
    decide
  obtain ⟨text, h⟩ := Logger.writes_exists hn
  obtain ⟨text', h'⟩ := OptLogger.writes_exists hn
  have hc : cstr (List.replicate 256 120) = List.replicate 256 120 :=
    List.takeWhile_eq_self_iff.mpr fun c hc => by
      rw [List.eq_of_mem_replicate hc]
      rfl
  refine ⟨text, text', h, h', ?_, ?_⟩
  · have ht := h.text_eq
    simp only [show cstr [37, 10] = [37, 10] from by decide, log, substitute] at ht
    obtain rfl := Except.ok.inj ht
    show Logger.written _ ++ [10] = _
    unfold Logger.written Logger.pushValue
    rw [Logger.write_chars, hc]
  · have ht := h'.text_eq
    simp only [show cstr [37, 10] = [37, 10] from by decide, log, substitute] at ht
    obtain rfl := Except.ok.inj ht
    show OptLogger.written _ ++ [10] = _
    unfold OptLogger.written OptLogger.pushValue
    rw [OptLogger.write_string, hc, List.take_replicate]
    rfl

end LowLatency
