import Openvocs.Lib.Bytes

open List

namespace writer

/-- What stands in front of the pointer, what is left, and how far octets were written. What is
    left is counted in 64 bits. -/
@[ext] structure Buffer where
  text : List Byte
  size : Nat
  reach : Nat
  covered : text.length ≤ reach

/-- Octets behind the pointer, whatever is left. -/
def Buffer.put (b : Buffer) (octets : List Byte) : Buffer where
  text := b.text ++ octets
  size := if octets.length ≤ b.size then b.size - octets.length else b.size + 2 ^ 64 - octets.length
  reach := max b.reach (b.text.length + octets.length)
  covered := by simp

/-- The pointer is put back. -/
def Buffer.back (b : Buffer) (n : Nat) : Buffer where
  text := b.text.take (b.text.length - n)
  size := b.size + n
  reach := b.reach
  covered := by
    have hcovered := b.covered
    rw [length_take]
    omega

def Buffer.of_size (size : Nat) : Buffer where
  text := []
  size := size
  reach := 0
  covered := Nat.le.refl

/-- A step that may fail. What was written until then stays. -/
abbrev Step : Type := Buffer → Except Buffer Buffer

/-- How far octets were written, whether the step failed or not. -/
def reach : Except Buffer Buffer → Nat
  | .ok b => b.reach
  | .error b => b.reach

def skip : Step := .ok

def refuse : Step := .error

def and_then (f g : Step) : Step := fun b => (f b).bind g

/-- Octets are written if there is room. -/
def write (octets : List Byte) : Step := fun b => if b.size < octets.length then .error b else .ok (b.put octets)

/-- Octets are written without a look at what is left. -/
def force (octets : List Byte) : Step := fun b => .ok (b.put octets)

/-- A step that needs room. -/
def need (n : Nat) (f : Step) : Step := fun b => if b.size < n then .error b else f b

def back (n : Nat) : Step := fun b => .ok (b.back n)

/-- How many octets a step writes, whether it is not refused, and the sizes for which it writes
    beyond the end. -/
structure Layout where
  length : Nat
  valid : Bool := true
  cuts : List Nat := []

namespace Layout

/-- Octets for which room is asked for. -/
def octets (n : Nat) : Layout where
  length := n

/-- One layout behind another one. -/
def and_then (l m : Layout) : Layout where
  length := l.length + m.length
  valid := l.valid && m.valid
  cuts := l.cuts ++ if l.valid then m.cuts.map (· + l.length) else []

/-- A layout with a question for room in front. -/
def at_least (n : Nat) (l : Layout) : Layout := { l with cuts := l.cuts.filter (n ≤ ·) }

variable (l m : Layout)

@[simp] theorem length_octets (n : Nat) : (octets n).length = n := rfl
@[simp] theorem valid_octets (n : Nat) : (octets n).valid = true := rfl
@[simp] theorem cuts_octets (n : Nat) : (octets n).cuts = [] := rfl
@[simp] theorem length_and_then : (l.and_then m).length = l.length + m.length := rfl
@[simp] theorem valid_and_then : (l.and_then m).valid = (l.valid && m.valid) := rfl
@[simp] theorem length_at_least (n : Nat) : (l.at_least n).length = l.length := rfl
@[simp] theorem valid_at_least (n : Nat) : (l.at_least n).valid = l.valid := rfl

theorem mem_cuts_and_then {x : Nat} :
    x ∈ (l.and_then m).cuts ↔ x ∈ l.cuts ∨ l.valid = true ∧ ∃ y ∈ m.cuts, y + l.length = x := by
  cases hvalid : l.valid <;> simp [and_then, hvalid]

theorem mem_cuts_at_least {n x : Nat} : x ∈ (l.at_least n).cuts ↔ x ∈ l.cuts ∧ n ≤ x := by simp [at_least]

end Layout

namespace Layout

theorem ext_of {l m : Layout} (hlength : l.length = m.length) (hvalid : l.valid = m.valid) (hcuts : l.cuts = m.cuts) :
    l = m := by
  cases l
  cases m
  simp_all

theorem and_then_assoc (l m n : Layout) : (l.and_then m).and_then n = l.and_then (m.and_then n) := by
  apply ext_of
  · simp [Nat.add_assoc]
  · simp [Bool.and_assoc]
  cases hl : l.valid <;> cases hm : m.valid <;>
    simp [and_then, hl, hm, Function.comp_def, Nat.add_assoc, Nat.add_comm m.length]

@[simp] theorem and_then_zero (l : Layout) : l.and_then (octets 0) = l := by
  apply ext_of <;> simp [and_then, octets]

@[simp] theorem zero_and_then (l : Layout) : (octets 0).and_then l = l := by
  apply ext_of <;> simp [and_then, octets]

theorem octets_and_then (m n : Nat) : (octets m).and_then (octets n) = octets (m + n) := by
  apply ext_of <;> simp [and_then, octets]

theorem at_least_and_then (k n : Nat) (l : Layout) :
    (l.and_then (octets n)).at_least k = (l.at_least k).and_then (octets n) := by
  apply ext_of <;> simp [and_then, octets, at_least]

theorem at_least_eq {k : Nat} {l : Layout} (h : ∀ x ∈ l.cuts, k ≤ x) : l.at_least k = l := by
  apply ext_of
  · rfl
  · rfl
  · exact filter_eq_self.mpr fun x hx => by simpa using h x hx

end Layout

/-- A step does what its layout says. -/
structure Writes (f : Step) (l : Layout) : Prop where
  mono (b : Buffer) : b.reach ≤ reach (f b)
  fits (b : Buffer) : l.length ≤ b.size → l.valid = true → ∃ octets, octets.length = l.length ∧ f b = .ok (b.put octets)
  cut (b : Buffer) : b.size ∈ l.cuts → b.text.length + b.size < reach (f b)
  refused (b : Buffer) : b.size ∉ l.cuts → ¬ (l.length ≤ b.size ∧ l.valid = true) →
    ∃ b', f b = .error b' ∧ b'.reach ≤ max b.reach (b.text.length + b.size)

section

variable {f g : Step} {l m : Layout} {b : Buffer}

theorem put_text (b : Buffer) (octets : List Byte) : (b.put octets).text = b.text ++ octets := rfl

theorem put_reach (b : Buffer) (octets : List Byte) :
    (b.put octets).reach = max b.reach (b.text.length + octets.length) := rfl

theorem back_text (b : Buffer) (n : Nat) : (b.back n).text = b.text.take (b.text.length - n) := rfl

theorem back_size (b : Buffer) (n : Nat) : (b.back n).size = b.size + n := rfl

theorem back_reach (b : Buffer) (n : Nat) : (b.back n).reach = b.reach := rfl

theorem put_size {octets : List Byte} (h : octets.length ≤ b.size) :
    (b.put octets).size = b.size - octets.length := if_pos h

@[simp] theorem put_nil (b : Buffer) : b.put [] = b := by
  apply Buffer.ext
  · rw [put_text, List.append_nil]
  · exact put_size (Nat.zero_le _)
  · rw [put_reach]
    exact Nat.max_eq_left b.covered

theorem put_put {first second : List Byte} (h : first.length + second.length ≤ b.size) :
    (b.put first).put second = b.put (first ++ second) := by
  have hfirst : (b.put first).size = b.size - first.length := put_size (by omega)
  apply Buffer.ext
  · rw [put_text, put_text, put_text, append_assoc]
  · rw [put_size (by rw [hfirst]; omega), hfirst, put_size (by rw [length_append]; omega), length_append]
    omega
  rw [put_reach, put_reach, put_reach, put_text, length_append, length_append]
  omega

theorem and_then_assoc (f g h : Step) : and_then (and_then f g) h = and_then f (and_then g h) := by
  funext b
  simp only [and_then]
  cases f b <;> rfl

theorem need_and_then (n : Nat) (f g : Step) : and_then (need n f) g = need n (and_then f g) := by
  funext b
  simp only [and_then, need]
  split <;> rfl

@[simp] theorem skip_and_then (f : Step) : and_then skip f = f := rfl

@[simp] theorem and_then_skip (f : Step) : and_then f skip = f := by
  funext b
  simp only [and_then]
  cases f b <;> rfl

theorem need_force {n : Nat} {octets : List Byte} (h : octets.length ≤ n) (g : Step) :
    need n (and_then (force octets) g) = need n (and_then (write octets) g) := by
  funext b
  simp only [need, and_then, force, write]
  split
  · rfl
  · rw [if_neg (by omega)]

theorem need_write (octets : List Byte) (g : Step) :
    need octets.length (and_then (write octets) g) = and_then (write octets) g := by
  funext b
  simp only [need, and_then, write]
  split <;> rfl

theorem reach_bind (hg : ∀ b, b.reach ≤ reach (g b)) (r : Except Buffer Buffer) : reach r ≤ reach (r.bind g) := by
  cases r with
  | error b => exact Nat.le.refl
  | ok b => exact hg b

theorem writes_skip : Writes skip (.octets 0) where
  mono _ := Nat.le.refl
  fits b _ _ := ⟨[], rfl, by rw [put_nil, skip]⟩
  cut _ h := by cases h
  refused b _ h := absurd ⟨Nat.zero_le _, rfl⟩ h

theorem writes_refuse (n : Nat) : Writes refuse ⟨n, false, []⟩ where
  mono _ := Nat.le.refl
  fits _ _ h := by cases h
  cut _ h := by cases h
  refused b _ _ := ⟨b, rfl, Nat.le_max_left ..⟩

theorem writes_write (octets : List Byte) : Writes (write octets) (.octets octets.length) where
  mono b := by
    rw [write]
    split
    · exact Nat.le.refl
    · exact Nat.le_max_left ..
  fits b h _ := ⟨octets, rfl, if_neg (Nat.not_lt.mpr h)⟩
  cut _ h := by cases h
  refused b _ h := ⟨b, if_pos (by simpa using h), Nat.le_max_left ..⟩

theorem writes_force {octets : List Byte} (h : octets.length = 2) :
    Writes (need 1 (force octets)) ⟨2, true, [1]⟩ where
  mono b := by
    rw [need]
    split
    · exact Nat.le.refl
    · exact Nat.le_max_left ..
  fits b hb _ := ⟨octets, h, if_neg (Nat.not_lt.mpr (Nat.le_of_succ_le hb))⟩
  cut b hb := by
    have hone : b.size = 1 := by simpa using hb
    rw [need, if_neg (by omega), force, reach, put_reach]
    omega
  refused b hb hfit := by
    have hne : b.size ≠ 1 := by simpa using hb
    have hlt : ¬ 2 ≤ b.size := by simpa using hfit
    exact ⟨b, if_pos (by omega), Nat.le_max_left ..⟩

theorem Writes.and_then (hf : Writes f l) (hg : Writes g m) : Writes (and_then f g) (l.and_then m) where
  mono b := (hf.mono b).trans (reach_bind hg.mono (f b))
  fits b hb hvalid := by
    rw [Layout.length_and_then] at hb
    rw [Layout.valid_and_then, Bool.and_eq_true] at hvalid
    obtain ⟨first, hfirst, hok⟩ := hf.fits b (by omega) hvalid.1
    have hsize : (b.put first).size = b.size - first.length := put_size (by omega)
    obtain ⟨second, hsecond, hok'⟩ := hg.fits (b.put first) (by rw [hsize]; omega) hvalid.2
    refine ⟨first ++ second, by rw [length_append, hfirst, hsecond, Layout.length_and_then], ?_⟩
    rw [writer.and_then, hok, Except.bind, hok', put_put (by omega)]
  cut b hb := by
    rw [Layout.mem_cuts_and_then] at hb
    obtain hcut | ⟨hvalid, y, hy, heq⟩ := hb
    · exact (hf.cut b hcut).trans_le (reach_bind hg.mono (f b))
    obtain ⟨first, hfirst, hok⟩ := hf.fits b (by omega) hvalid
    have hsize : (b.put first).size = b.size - first.length := put_size (by omega)
    have hcut := hg.cut (b.put first) (by rw [hsize]; convert hy using 1; omega)
    rw [hsize] at hcut
    rw [put_text, length_append] at hcut
    rw [writer.and_then, hok, Except.bind]
    exact Nat.lt_of_le_of_lt (by omega) hcut
  refused b hb hfit := by
    rw [Layout.mem_cuts_and_then, not_or] at hb
    rw [Layout.length_and_then, Layout.valid_and_then, Bool.and_eq_true] at hfit
    by_cases hfirst : l.length ≤ b.size ∧ l.valid = true
    · obtain ⟨first, hlength, hok⟩ := hf.fits b hfirst.1 hfirst.2
      have hsize : (b.put first).size = b.size - first.length := put_size (by omega)
      obtain ⟨b', herror, hreach⟩ := hg.refused (b.put first)
        (by
          rw [hsize]
          intro hmem
          exact hb.2 ⟨hfirst.2, _, hmem, by omega⟩)
        (by
          rw [hsize]
          rintro ⟨hle, hvalid⟩
          exact hfit ⟨by omega, hfirst.2, hvalid⟩)
      refine ⟨b', by rw [writer.and_then, hok, Except.bind, herror], ?_⟩
      rw [hsize] at hreach
      rw [put_text, put_reach, length_append] at hreach
      omega
    obtain ⟨b', herror, hreach⟩ := hf.refused b hb.1 hfirst
    exact ⟨b', by rw [writer.and_then, herror, Except.bind], hreach⟩

theorem Writes.need (hf : Writes f l) {n : Nat} (hn : n ≤ l.length) : Writes (need n f) (l.at_least n) where
  mono b := by
    rw [writer.need]
    split
    · exact Nat.le.refl
    · exact hf.mono b
  fits b hb hvalid := by
    obtain ⟨octets, hoctets, hok⟩ := hf.fits b hb hvalid
    exact ⟨octets, hoctets, (if_neg (Nat.not_lt.mpr (hn.trans hb))).trans hok⟩
  cut b hb := by
    rw [Layout.mem_cuts_at_least] at hb
    rw [writer.need, if_neg (Nat.not_lt.mpr hb.2)]
    exact hf.cut b hb.1
  refused b hb hfit := by
    rw [Layout.mem_cuts_at_least] at hb
    by_cases hroom : b.size < n
    · exact ⟨b, if_pos hroom, Nat.le_max_left ..⟩
    obtain ⟨b', herror, hreach⟩ := hf.refused b (fun hcut => hb ⟨hcut, Nat.not_lt.mp hroom⟩) hfit
    exact ⟨b', (if_neg hroom).trans herror, hreach⟩

theorem Writes.need_of_cuts (hf : Writes f l) {n : Nat} (hn : n ≤ l.length) (h : ∀ x ∈ l.cuts, n ≤ x) :
    Writes (writer.need n f) l := by
  have hneed := hf.need hn
  rwa [Layout.at_least_eq h] at hneed

theorem Writes.back {n k : Nat} (hf : Writes f (l.and_then (.octets n))) (hg : Writes g (.octets k)) (hn : n ≤ k) :
    Writes (writer.and_then f (writer.and_then (writer.back n) g)) (l.and_then (.octets k)) where
  mono b := (hf.mono b).trans (reach_bind (fun b => hg.mono (b.back n)) (f b))
  fits b hb hvalid := by
    rw [Layout.length_and_then, Layout.length_octets] at hb
    have hroom : (l.and_then (Layout.octets n)).length ≤ b.size := by
      rw [Layout.length_and_then, Layout.length_octets]
      omega
    obtain ⟨first, hfirst, hok⟩ := hf.fits b hroom (by simpa using hvalid)
    rw [Layout.length_and_then, Layout.length_octets] at hfirst
    have hsize : ((b.put first).back n).size = b.size - l.length := by
      rw [back_size, put_size (by omega)]
      omega
    obtain ⟨second, hsecond, hok'⟩ := hg.fits ((b.put first).back n) (by rw [hsize, Layout.length_octets]; omega) rfl
    rw [Layout.length_octets] at hsecond
    refine ⟨first.take l.length ++ second, ?_, ?_⟩
    · rw [length_append, length_take, Layout.length_and_then, Layout.length_octets]
      omega
    rw [writer.and_then, hok, Except.bind, writer.and_then, writer.back, Except.bind, hok']
    congr 1
    have htext : ((b.put first).back n).text = b.text ++ first.take l.length := by
      rw [back_text, put_text, take_append, take_of_length_le (by rw [length_append]; omega), length_append]
      congr 2
      omega
    apply Buffer.ext
    · rw [put_text, put_text, htext, append_assoc]
    · rw [put_size (by rw [hsize]; omega), hsize, put_size (by rw [length_append, length_take]; omega),
        length_append, length_take]
      omega
    rw [put_reach, htext, back_reach, put_reach, put_reach, length_append, length_append, length_take]
    omega
  cut b hb := by
    have hcut : b.size ∈ (l.and_then (.octets n)).cuts := by
      rw [Layout.mem_cuts_and_then] at hb ⊢
      exact .inl (hb.resolve_right (by simp))
    exact (hf.cut b hcut).trans_le (reach_bind (fun b => hg.mono (b.back n)) (f b))
  refused b hb hfit := by
    have hcut : b.size ∉ (l.and_then (.octets n)).cuts := by
      rw [Layout.mem_cuts_and_then] at hb ⊢
      simpa using hb
    by_cases hfirst : (l.and_then (.octets n)).length ≤ b.size ∧ (l.and_then (.octets n)).valid = true
    · obtain ⟨first, hlength, hok⟩ := hf.fits b hfirst.1 hfirst.2
      simp only [Layout.length_and_then, Layout.length_octets, Layout.valid_and_then, Layout.valid_octets,
        Bool.and_true] at hfirst hlength hfit
      have hsize : ((b.put first).back n).size = b.size - l.length := by
        rw [back_size, put_size (by omega)]
        omega
      have hshort : ¬ l.length + k ≤ b.size := fun hle => hfit ⟨hle, hfirst.2⟩
      obtain ⟨b', herror, hreach⟩ := hg.refused ((b.put first).back n) (by simp)
        (by
          rw [hsize, Layout.length_octets]
          omega)
      refine ⟨b', ?_, ?_⟩
      · rw [writer.and_then, hok, Except.bind, writer.and_then, writer.back, Except.bind, herror]
      rw [hsize, back_reach, back_text, put_text, put_reach, length_take, length_append] at hreach
      omega
    obtain ⟨b', herror, hreach⟩ := hf.refused b hcut hfirst
    exact ⟨b', by rw [writer.and_then, herror, Except.bind], hreach⟩

/-- In an empty buffer of some size, a step writes exactly its length where there is room, and
    fails within the buffer elsewhere. -/
def Exact (f : Step) (length size : Nat) : Prop :=
  if length ≤ size then ∃ b, f (.of_size size) = .ok b ∧ b.text.length = length ∧ b.reach = length
  else ∃ b, f (.of_size size) = .error b ∧ b.reach ≤ size

theorem Writes.exact_iff (hf : Writes f l) (size : Nat) :
    Exact f l.length size ↔ size ∉ l.cuts ∧ (l.length ≤ size → l.valid = true) := by
  have hzero : (Buffer.of_size size).text.length = 0 := rfl
  have hreach : (Buffer.of_size size).reach = 0 := rfl
  rw [Exact]
  constructor
  · intro hexact
    have hcut : size ∉ l.cuts := by
      intro hcut
      have hbeyond := hf.cut (.of_size size) hcut
      have hsize : (Buffer.of_size size).size = size := rfl
      rw [hzero, hsize, Nat.zero_add] at hbeyond
      split at hexact
      · obtain ⟨b, hok, -, hlength⟩ := hexact
        rw [hok, reach] at hbeyond
        omega
      obtain ⟨b, herror, hle⟩ := hexact
      rw [herror, reach] at hbeyond
      omega
    refine ⟨hcut, ?_⟩
    intro hroom
    rw [if_pos hroom] at hexact
    obtain ⟨b, hok, -⟩ := hexact
    by_contra hvalid
    obtain ⟨b', herror, -⟩ := hf.refused (.of_size size) hcut (fun h => hvalid h.2)
    rw [hok] at herror
    cases herror
  rintro ⟨hcut, hvalid⟩
  split
  · next hroom =>
    obtain ⟨octets, hoctets, hok⟩ := hf.fits (.of_size size) hroom (hvalid hroom)
    refine ⟨_, hok, ?_, ?_⟩
    · rw [put_text, length_append, hzero, hoctets, Nat.zero_add]
    rw [put_reach, hreach, hzero, hoctets]
    omega
  next hroom =>
  obtain ⟨b, herror, hle⟩ := hf.refused (.of_size size) hcut (fun h => hroom h.1)
  rw [hreach, hzero, Nat.zero_add, Nat.zero_max] at hle
  exact ⟨b, herror, hle⟩

end

end writer
