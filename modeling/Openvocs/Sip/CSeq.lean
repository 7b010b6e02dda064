import Openvocs.Sip.Serde

open List Option

namespace openvocs.sip

open cstring

def header_cseq : Text := ascii "CSeq"

def propagate_to_first_non_space (s : Text) : Text := s.dropWhile is_space

/-- `parse_cseq_header`, with the method if one is set. -/
def parse_cseq_header : Option Text → Nat × Option Text
  | none => (0, none)
  | some header =>
    let (cseq, endptr) := (strtol header).getD (0, header)
    let endptr := propagate_to_first_non_space endptr
    if endptr = [] then (0, none) else ((cseq % 2 ^ 32).toNat, some endptr)

def ov_sip_message_cseq (message : Message) : Nat × Option Text :=
  parse_cseq_header (message.headers.get header_cseq).join

/-- `create_cseq_string`. The last octet of the room is for the zero. -/
def create_cseq_string (method : Text) (seq : Nat) : Text :=
  let len := 5 + 1 + method.length + 1
  (decimal seq ++ sp :: method).take (len - 1)

/-- `ov_sip_message_cseq_set`. Another method than that of a request is only logged. -/
def ov_sip_message_cseq_set (bucket : Text → Nat) (message : Message) (method : Text) (seq : Nat) : Bool × Message :=
  (true, { message with headers := header_set bucket message.headers header_cseq (create_cseq_string method seq) })

/-- A character of a token: a letter, a digit, or one of the signs of RFC 3261. -/
def is_token_char (c : Byte) : Bool :=
  is_digit c || (65 ≤ c.toNat && c.toNat ≤ 90) || (97 ≤ c.toNat && c.toNat ≤ 122) ||
    (ascii "-.!%*_+`'~").contains c

def IsToken (s : Text) : Prop := s ≠ [] ∧ ∀ c ∈ s, is_token_char c = true

instance (s : Text) : Decidable (IsToken s) := inferInstanceAs (Decidable (_ ∧ _))

theorem not_is_space_of_token : ∀ c : Byte, is_token_char c = true → is_space c = false := by decide +kernel

variable {bucket : Text → Nat} {message : Message} {method : Text} {seq : Nat}

theorem ov_sip_message_cseq_of_set :
    ov_sip_message_cseq (ov_sip_message_cseq_set bucket message method seq).2 =
      parse_cseq_header (ov_string_dup (create_cseq_string method seq)) := by
  simp [ov_sip_message_cseq, ov_sip_message_cseq_set, header_set, Dict.get_set]

theorem parse_cseq_written {rest : Text} (hseq : seq < 2 ^ 31) (hrest : rest ≠ [])
    (hspace : ∀ c ∈ rest.head?, is_space c = false) :
    parse_cseq_header (some (decimal seq ++ sp :: rest)) = (seq, some rest) := by
  have hread := strtol_digits (isNumber_decimal seq)
    (fun c (hc : c ∈ (sp :: rest).head?) => by
      rw [head?_cons, mem_some_iff] at hc
      rw [← hc]
      decide)
  have hclamp : clamp (cstring.value (decimal seq)) = seq := by
    rw [value_decimal, clamp]
    omega
  have hskip : propagate_to_first_non_space (sp :: rest) = rest := by
    cases rest with
    | nil => exact absurd rfl hrest
    | cons c rest =>
      have hc : is_space c = false := hspace c rfl
      have hsp : is_space sp = true := by decide
      simp [propagate_to_first_non_space, hc, hsp]
  have hmod : ((seq : Int) % 2 ^ 32).toNat = seq := by omega
  rw [parse_cseq_header, hread, getD_some]
  simp only [hskip, hrest, if_false, hclamp, hmod]

theorem parse_cseq_number {digits : Text} (h : ∀ c ∈ digits, is_digit c = true) :
    (parse_cseq_header (some digits)).2 = none := by
  by_cases hnil : digits = []
  · rw [hnil]
    rfl
  have hread := strtol_digits ⟨hnil, h⟩ (fun c (hc : c ∈ ([] : Text).head?) => by cases hc)
  rw [List.append_nil] at hread
  rw [parse_cseq_header, hread, getD_some]
  rfl

theorem parse_cseq_cut {n : Nat} (hmethod : IsToken method) (hseq : seq < 2 ^ 31)
    (hcut : n < (decimal seq).length + 1 + method.length) :
    (parse_cseq_header (some ((decimal seq ++ sp :: method).take n))).2 ≠ some method := by
  have hdigits := (isNumber_decimal seq).2
  by_cases hnumber : n ≤ (decimal seq).length
  · rw [take_append_of_le_length hnumber, parse_cseq_number fun c hc => hdigits c (mem_of_mem_take hc)]
    simp
  obtain ⟨k, rfl⟩ : ∃ k, n = (decimal seq).length + (k + 1) := ⟨n - (decimal seq).length - 1, by omega⟩
  rw [take_length_add_append, take_succ_cons]
  have hlength : (method.take k).length < method.length := by
    rw [length_take]
    omega
  by_cases hnil : method.take k = []
  · rw [hnil, parse_cseq_header, strtol_digits (isNumber_decimal seq) (by simp [sp]; decide)]
    simp [propagate_to_first_non_space, show is_space sp = true by decide]
  rw [parse_cseq_written hseq hnil fun c hc =>
    not_is_space_of_token c (hmethod.2 c (mem_of_mem_take (mem_of_mem_head? hc)))]
  intro hsame
  rw [some.inj hsame] at hlength
  omega

/-- A CSeq is read as it was set exactly when its number has at most five digits and its text
    is not too long to be stored. -/
theorem cseq_round_trip_iff (bucket : Text → Nat) (message : Message) {method : Text} (hmethod : IsToken method)
    {seq : Nat} (hseq : 0 < seq ∧ seq < 2 ^ 31) :
    ((ov_sip_message_cseq_set bucket message method seq).1 = true →
        ov_sip_message_cseq (ov_sip_message_cseq_set bucket message method seq).2 = (seq, some method)) ↔
      seq < 100000 ∧ (decimal seq).length + 1 + method.length < string_default_size := by
  rw [ov_sip_message_cseq_of_set]
  by_cases hfive : seq < 100000
  · have hdigits : (decimal seq).length ≤ 5 := length_decimal_le (by omega) hfive
    have hwhole : create_cseq_string method seq = decimal seq ++ sp :: method := by
      rw [create_cseq_string, take_of_length_le]
      simp only [length_append, length_cons]
      omega
    have hlength : (decimal seq ++ sp :: method).length = (decimal seq).length + 1 + method.length := by
      simp only [length_append, length_cons]
      omega
    rw [hwhole, ov_string_dup, hlength]
    by_cases hstored : (decimal seq).length + 1 + method.length < string_default_size
    · have hread := parse_cseq_written hseq.2 hmethod.1 fun c hc =>
        not_is_space_of_token c (hmethod.2 c (mem_of_mem_head? hc))
      simp [hstored, hread, hfive]
    · simp [hstored, parse_cseq_header, ov_sip_message_cseq_set]
  · have hdigits : 5 < (decimal seq).length := lt_length_decimal (by omega)
    have hnot : parse_cseq_header (ov_string_dup (create_cseq_string method seq)) ≠ (seq, some method) := by
      rw [ov_string_dup]
      split
      · intro heq
        refine parse_cseq_cut (n := 5 + 1 + method.length + 1 - 1) hmethod hseq.2 (by omega) ?_
        exact congrArg Prod.snd heq
      · simp [parse_cseq_header]
    simp [hnot, hfive, ov_sip_message_cseq_set]

/-- A number of five digits. -/
theorem cseq_round_trip_invite :
    ov_sip_message_cseq (ov_sip_message_cseq_set (fun _ => 0) (fresh_message (fun _ => 0) (.response 200 none))
      (ascii "INVITE") 99999).2 = (99999, some (ascii "INVITE")) :=
  (cseq_round_trip_iff (fun _ => 0) _ (by decide : IsToken (ascii "INVITE")) (by decide : 0 < 99999 ∧ _)).mpr
    (by decide) rfl

/-- With one digit more the method loses its last letter. -/
theorem cseq_invite_cut :
    (ov_sip_message_cseq_set (fun _ => 0) (fresh_message (fun _ => 0) (.response 200 none)) (ascii "INVITE") 100000).1 =
        true ∧
      ov_sip_message_cseq (ov_sip_message_cseq_set (fun _ => 0) (fresh_message (fun _ => 0) (.response 200 none))
        (ascii "INVITE") 100000).2 = (100000, some (ascii "INVIT")) := by
  decide +kernel

end openvocs.sip
