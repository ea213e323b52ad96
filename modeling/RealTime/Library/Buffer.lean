import Mathlib.Data.List.Basic
import Mathlib.Data.List.TakeWhile

/-! # Byte buffers of fixed size

A `Buffer n` is an array of `n` bytes. Accesses whose bounds depend on run-time values
are partial. Strings in a buffer end at the first NUL. -/

namespace RealTime

structure Buffer (n : ℕ) where
  bytes : List UInt8
  size : bytes.length = n
deriving DecidableEq

/-- The string at the start of some bytes. -/
def cstr (bs : List UInt8) : List UInt8 := bs.takeWhile (· ≠ 0)

/-- `strncmp(s, t, n) == 0`. -/
def strncmpEq (s t : List UInt8) (n : ℕ) : Bool := (cstr s).take n = (cstr t).take n

def ascii (cs : List Char) : List UInt8 := cs.map fun c => UInt8.ofNat c.toNat

theorem cstr_append_zero (xs ys : List UInt8) : cstr (xs ++ 0 :: ys) = cstr xs := by
  induction xs with
  | nil => simp [cstr]
  | cons x xs ih =>
      by_cases hx : x = 0
      · simp [cstr, hx]
      · simpa [cstr, hx] using ih

theorem cstr_eq_self {bs : List UInt8} (h : 0 ∉ bs) : cstr bs = bs := by
  rw [cstr, List.takeWhile_eq_self_iff]
  intro b hb
  have hne : b ≠ 0 := fun hzero => h (hzero ▸ hb)
  simpa using hne

/-- A string is shorter than the bytes it is in exactly when it is terminated there. -/
theorem length_cstr_lt_iff (bs : List UInt8) : (cstr bs).length < bs.length ↔ 0 ∈ bs := by
  induction bs with
  | nil => simp
  | cons b bs ih =>
      by_cases hb : b = 0
      · simp [cstr, hb]
      · simpa [cstr, hb, Ne.symm hb] using ih

theorem take_cstr (bs : List UInt8) (n : ℕ) : (cstr bs).take n = cstr (bs.take n) :=
  List.take_takeWhile

theorem take_length_cstr (bs : List UInt8) : bs.take (cstr bs).length = cstr bs :=
  (List.prefix_iff_eq_take.mp (List.takeWhile_prefix _)).symm

theorem length_cstr_le (bs : List UInt8) : (cstr bs).length ≤ bs.length :=
  (List.takeWhile_prefix _).length_le

/-- The comparison looks at the first `n` bytes only. -/
theorem strncmpEq_congr {s s' : List UInt8} (t : List UInt8) {n : ℕ} (h : s.take n = s'.take n) :
    strncmpEq s t n = strncmpEq s' t n := by
  simp only [strncmpEq, take_cstr s, take_cstr s', h]

theorem le_length_of_strncmpEq {s t : List UInt8} {n : ℕ} (h : strncmpEq s t n = true)
    (ht : n ≤ (cstr t).length) : n ≤ s.length := by
  have htake : (cstr s).take n = (cstr t).take n := by simpa [strncmpEq] using h
  have hlength := congrArg List.length htake
  have hle := length_cstr_le s
  rw [List.length_take, List.length_take] at hlength
  omega

/-! ## Memory of which only the start can be read -/

/-- The string at the start of `bs`, read up to its NUL. -/
def readString (bs : List UInt8) : Option (List UInt8) :=
  if 0 ∈ bs then some (cstr bs) else none

/-- `strncmp(s, t, n) == 0`, reading `s` byte by byte. Behind `t` there is a NUL. -/
def strncmpRead (s t : List UInt8) : ℕ → Option Bool
  | 0 => some true
  | n + 1 =>
    match s with
    | [] => none
    | a :: s =>
      if a ≠ t.headD 0 then some false
      else if a = 0 then some true
      else strncmpRead s t.tail n

theorem readString_of_mem {bs : List UInt8} (h : 0 ∈ bs) : readString bs = some (cstr bs) :=
  if_pos h

theorem readString_of_notMem {bs : List UInt8} (h : 0 ∉ bs) : readString bs = none := if_neg h

theorem eq_cstr_of_readString {bs text : List UInt8} (h : readString bs = some text) :
    text = cstr bs := by
  unfold readString at h
  split at h
  · exact (Option.some.inj h).symm
  · cases h

/-- What has been read does not change when more can be read. -/
theorem readString_append {bs text : List UInt8} (h : readString bs = some text)
    (more : List UInt8) : readString (bs ++ more) = some text := by
  unfold readString at h
  split at h
  · rename_i hzero
    obtain ⟨xs, ys, rfl⟩ := List.append_of_mem hzero
    rw [cstr_append_zero] at h
    rw [readString, if_pos (by simp), List.append_assoc, List.cons_append, cstr_append_zero, h]
  · cases h

theorem strncmpRead_append {s t : List UInt8} {n : ℕ} {r : Bool}
    (h : strncmpRead s t n = some r) (more : List UInt8) :
    strncmpRead (s ++ more) t n = some r := by
  induction n generalizing s t with
  | zero =>
      simp only [strncmpRead] at h ⊢
      exact h
  | succ n ih =>
      cases s with
      | nil =>
          simp only [strncmpRead] at h
          cases h
      | cons a s =>
          rw [List.cons_append]
          simp only [strncmpRead] at h ⊢
          split_ifs at h ⊢ with hne hzero
          · exact h
          · exact h
          · exact ih h

theorem strncmpEq_of_strncmpRead {s t : List UInt8} {n : ℕ} {r : Bool}
    (h : strncmpRead s t n = some r) : strncmpEq s t n = r := by
  induction n generalizing s t with
  | zero =>
      simp only [strncmpRead] at h
      simp [strncmpEq, ← Option.some.inj h]
  | succ n ih =>
      cases s with
      | nil =>
          simp only [strncmpRead] at h
          cases h
      | cons a s =>
          simp only [strncmpRead] at h
          cases t with
          | nil =>
              by_cases ha : a = 0 <;> simp_all [strncmpEq, cstr]
          | cons b t =>
              rw [List.headD_cons, List.tail_cons] at h
              by_cases hab : a = b
              · subst hab
                by_cases ha : a = 0
                · simp_all [strncmpEq, cstr]
                · rw [if_neg (not_not.mpr rfl), if_neg ha] at h
                  rw [← ih h]
                  simp [strncmpEq, cstr, ha]
              · by_cases ha : a = 0 <;> by_cases hb : b = 0 <;> simp_all [strncmpEq, cstr]

/-- Comparing with the whole of `t`: the comparison ends at the first difference, and
reads on at the end of a proper prefix. -/
theorem strncmpRead_length {t : List UInt8} (ht : 0 ∉ t) (s : List UInt8) :
    strncmpRead s t t.length =
      if t <+: s then some true else if s <+: t then none else some false := by
  induction t generalizing s with
  | nil => simp [strncmpRead]
  | cons b t ih =>
      have hb : b ≠ 0 := fun hzero => ht (hzero ▸ List.mem_cons_self)
      have hrest := ih (fun hmem => ht (List.mem_cons_of_mem b hmem))
      cases s with
      | nil => simp [strncmpRead]
      | cons a s =>
          simp only [List.length_cons, strncmpRead, List.headD_cons, List.tail_cons,
            List.cons_prefix_cons, hrest]
          by_cases hab : a = b
          · subst hab
            simp [hb]
          · simp [hab, Ne.symm hab]

namespace Buffer

variable {n : ℕ}

def zero (n : ℕ) : Buffer n := ⟨List.replicate n 0, List.length_replicate⟩

/-- `memcpy` of `src` to the start of the buffer. -/
def copy (b : Buffer n) (src : List UInt8) : Option (Buffer n) :=
  if h : src.length ≤ n then
    some ⟨src ++ b.bytes.drop src.length, by simp [b.size]; omega⟩
  else none

def store (b : Buffer n) (i : ℕ) (x : UInt8) : Option (Buffer n) :=
  if i < n then some ⟨b.bytes.set i x, by simp [b.size]⟩ else none

/-- `strlen` stays in the buffer only if it meets a NUL there. -/
def strlen (b : Buffer n) : Option ℕ := if 0 ∈ b.bytes then some (cstr b.bytes).length else none

/-- All bytes but the last, as a buffer to be passed by reference. -/
def front (b : Buffer (n + 1)) : Buffer n := ⟨b.bytes.take n, by simp [b.size]⟩

def setFront (b : Buffer (n + 1)) (f : Buffer n) : Buffer (n + 1) :=
  ⟨f.bytes ++ b.bytes.drop n, by simp [b.size, f.size]⟩

@[simp] theorem front_setFront (b : Buffer (n + 1)) (f : Buffer n) : (b.setFront f).front = f := by
  cases f with
  | mk bytes size => simp [front, setFront, ← size]

/-! ## Buffers that end in a NUL -/

def Terminated (b : Buffer (n + 1)) : Prop := b.bytes.drop n = [0]

theorem Terminated.bytes_eq {b : Buffer (n + 1)} (h : b.Terminated) :
    b.bytes = b.front.bytes ++ [0] := by
  rw [← h, front, List.take_append_drop]

theorem Terminated.setFront {b : Buffer (n + 1)} (h : b.Terminated) (f : Buffer n) :
    (b.setFront f).Terminated := by
  rw [Terminated, Buffer.setFront, List.drop_append_of_le_length (by simp [f.size]),
    List.drop_eq_nil_of_le (by simp [f.size])]
  exact h

theorem Terminated.strlen {b : Buffer (n + 1)} (h : b.Terminated) :
    b.strlen = some (cstr b.front.bytes).length := by
  rw [Buffer.strlen, h.bytes_eq, if_pos (by simp), cstr_append_zero]

theorem Terminated.cstr_front {b : Buffer (n + 1)} (h : b.Terminated) :
    cstr b.front.bytes = cstr b.bytes := by
  rw [h.bytes_eq, cstr_append_zero]

theorem Terminated.last {b : Buffer (n + 1)} (h : b.Terminated) : b.bytes[n]? = some 0 := by
  have hlast := congrArg List.head? (h : b.bytes.drop n = [0])
  simpa using hlast

theorem strlen_le {b : Buffer (n + 1)} {k : ℕ} (h : b.strlen = some k) : k ≤ n := by
  unfold strlen at h
  split at h
  · rename_i hzero
    have hlt := (length_cstr_lt_iff b.bytes).mpr hzero
    rw [b.size] at hlt
    cases h
    omega
  · cases h

/-- The string in a terminated buffer, as the bytes in front of `strlen`. -/
theorem Terminated.take_strlen {b : Buffer (n + 1)} (h : b.Terminated) :
    b.bytes.take (cstr b.front.bytes).length = cstr b.front.bytes := by
  have hle : (cstr b.front.bytes).length ≤ b.front.bytes.length := length_cstr_le _
  rw [h.bytes_eq, List.take_append_of_le_length hle, take_length_cstr]

theorem Terminated.readString {b : Buffer (n + 1)} (h : b.Terminated) :
    readString b.bytes = some (cstr b.bytes) := by
  have hzero : 0 ∈ b.bytes := by
    rw [h.bytes_eq]
    simp
  exact readString_of_mem hzero

/-- Copying a string that leaves room for a NUL, and storing the NUL behind it. -/
theorem Terminated.copy_store {b : Buffer (n + 1)} (h : b.Terminated) {src : List UInt8}
    (hsrc : src.length ≤ n) :
    ∃ c d, b.copy src = some c ∧ c.store src.length 0 = some d ∧ d.Terminated ∧
      cstr d.front.bytes = cstr src := by
  have hcopy : b.copy src = some ⟨src ++ b.bytes.drop src.length, by simp [b.size]; omega⟩ :=
    dif_pos (by omega)
  have hbytes : (src ++ b.bytes.drop src.length).set src.length 0 =
      src ++ 0 :: b.bytes.drop (src.length + 1) := by
    have hlt : src.length < b.bytes.length := by rw [b.size]; omega
    rw [List.set_append_right _ _ (Nat.le_refl _), Nat.sub_self, List.drop_eq_getElem_cons hlt,
      List.set_cons_zero]
  refine ⟨_, _, hcopy, if_pos (by omega), ?_, ?_⟩
  · have hdrop : b.bytes.drop n = [0] := h
    simp only [Terminated, hbytes]
    rcases Nat.eq_or_lt_of_le hsrc with heq | hlt
    · simp [heq, b.size]
    · rw [List.drop_append, List.drop_eq_nil_of_le hsrc, List.nil_append,
        show n - src.length = n - src.length - 1 + 1 by omega, List.drop_succ_cons,
        List.drop_drop, show src.length + 1 + (n - src.length - 1) = n by omega, hdrop]
  · simp only [front, hbytes]
    rcases Nat.eq_or_lt_of_le hsrc with heq | hlt
    · rw [List.take_left' heq]
    · rw [List.take_append, List.take_of_length_le hsrc,
        show n - src.length = n - src.length - 1 + 1 by omega, List.take_succ_cons,
        cstr_append_zero]

/-- Copying a string together with its NUL, where it ends before the last byte. -/
theorem Terminated.copy_string {b : Buffer (n + 1)} (h : b.Terminated) {src : List UInt8}
    (hsrc : src.length < n) :
    ∃ c, b.copy (src ++ [0]) = some c ∧ c.Terminated ∧ cstr c.bytes = cstr src := by
  have hlength : (src ++ [0]).length ≤ n := by simpa using Nat.succ_le_of_lt hsrc
  refine ⟨_, dif_pos (by omega), ?_, ?_⟩
  · have hdrop : b.bytes.drop n = [0] := h
    simp only [Terminated]
    rw [List.drop_append, List.drop_eq_nil_of_le hlength, List.nil_append, List.drop_drop,
      Nat.add_sub_cancel' hlength, hdrop]
  · simp [cstr_append_zero]

/-- Copying as many bytes as there are in front of the NUL. -/
theorem Terminated.copy_full {b : Buffer (n + 1)} (h : b.Terminated) {src : List UInt8}
    (hsrc : src.length = n) :
    ∃ c, b.copy src = some c ∧ c.Terminated ∧ cstr c.bytes = cstr src := by
  have hdrop : b.bytes.drop src.length = [0] := by
    rw [hsrc]
    exact h
  refine ⟨_, dif_pos (by omega), ?_, ?_⟩
  · simp only [Terminated, hdrop]
    exact List.drop_left' hsrc
  · simp only [hdrop]
    exact cstr_append_zero src []

theorem exists_store_last (b : Buffer (n + 1)) : ∃ c, b.store n 0 = some c ∧ c.Terminated := by
  refine ⟨_, if_pos (Nat.lt_succ_self n), ?_⟩
  have hlast : b.bytes.drop (n + 1) = [] := List.drop_eq_nil_of_le (Nat.le_of_eq b.size)
  rw [Terminated, List.drop_set, if_neg (Nat.lt_irrefl n), Nat.sub_self,
    List.drop_eq_getElem_cons (by rw [b.size]; exact Nat.lt_succ_self n), List.set_cons_zero, hlast]

end Buffer

end RealTime
