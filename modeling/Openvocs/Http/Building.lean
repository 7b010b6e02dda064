import Openvocs.Http.HeaderSection
import Openvocs.Http.Message
import Openvocs.Lib.Machine

open List Option

namespace openvocs.http

open cstring (Str)

namespace Message

variable {msg next : Message} {text octets : List Byte}

/-- No more of the buffer is used than there is, and the buffer can grow. -/
structure Sound (msg : Message) : Prop where
  fits : msg.length ≤ msg.capacity
  grows : 0 < msg.config.default_size

theorem Sound.length_content (h : msg.Sound) : msg.content.length = msg.length := by
  rw [content, length_take]
  exact Nat.min_eq_left h.fits

theorem Sound.unused (h : msg.Sound) : minus msg.capacity msg.length = msg.capacity - msg.length :=
  if_pos h.fits

/-- A message with the same used part. -/
structure Same (msg next : Message) : Prop where
  config : next.config = msg.config
  length : next.length = msg.length
  content : next.content = msg.content

theorem Same.refl (msg : Message) : msg.Same msg := ⟨rfl, rfl, rfl⟩

theorem Same.trans {last : Message} (h : msg.Same next) (hlast : next.Same last) : msg.Same last :=
  ⟨hlast.config.trans h.config, hlast.length.trans h.length, hlast.content.trans h.content⟩

theorem Same.sound (h : msg.Same next) (hsound : msg.Sound) (hfits : msg.length ≤ next.capacity) : next.Sound where
  fits := h.length ▸ hfits
  grows := h.config ▸ hsound.grows

/-- The message behind an addition of a text that succeeded or failed. -/
structure Added (msg : Message) (text : List Byte) (ok : Bool) (next : Message) : Prop where
  config : next.config = msg.config
  sound : next.Sound
  content : next.content = msg.content ++ if ok then text else []

theorem Same.added (h : msg.Same next) (hsound : next.Sound) (text : List Byte) : msg.Added text false next where
  config := h.config
  sound := hsound
  content := by simp [h.content]

theorem Added.after {mid : Message} {ok : Bool} (h : mid.Added text ok next) (hsame : msg.Same mid) :
    msg.Added text ok next where
  config := h.config.trans hsame.config
  sound := h.sound
  content := by rw [h.content, hsame.content]

theorem Added.length {ok : Bool} (h : msg.Added text ok next) (hsound : msg.Sound) :
    next.length = msg.length + if ok then text.length else 0 := by
  rw [← h.sound.length_content, h.content, length_append, hsound.length_content]
  cases ok <;> rfl

theorem write_spec (hsound : msg.Sound) (h : msg.length + octets.length ≤ msg.capacity) :
    ∃ next, msg.write octets = some next ∧ msg.Same next ∧ next.capacity = msg.capacity ∧
      bytes.slice next.start msg.length octets.length = octets := by
  have hlength : (msg.start.take msg.length).length = msg.length := hsound.length_content
  refine ⟨_, if_pos h, ⟨rfl, rfl, ?_⟩, bytes.length_overwrite h, ?_⟩
  · simp only [content, bytes.overwrite, append_assoc]
    exact take_left' hlength
  simp only [bytes.overwrite, append_assoc]
  exact bytes.slice_mid _ _ _ hlength rfl

theorem length_print_octets (room : Nat) (text : List Byte) : (print_octets room text).length ≤ room := by
  unfold print_octets
  split
  · exact Nat.zero_le _
  rw [length_append, length_take, length_singleton]
  omega

theorem print_octets_of_lt {room : Nat} (h : text.length < room) : print_octets room text = text ++ [0] := by
  have hroom : ¬ room = 0 := by omega
  have htext : text.length ≤ room - 1 := by omega
  rw [print_octets, if_neg hroom, take_of_length_le htext]

theorem print_spec (hsound : msg.Sound) {room : Nat} (hroom : room ≤ msg.capacity - msg.length) (text : List Byte) :
    ∃ next, msg.write (print_octets room text) = some next ∧ msg.Same next ∧ next.capacity = msg.capacity ∧
      (text.length < room → ({ next with length := msg.length + text.length } : Message).content =
        msg.content ++ text) := by
  have hfits := hsound.fits
  have hoctets := length_print_octets room text
  obtain ⟨next, hwrite, hsame, hcapacity, hslice⟩ :=
    @write_spec msg (print_octets room text) hsound (by omega)
  refine ⟨next, hwrite, hsame, hcapacity, fun hless => ?_⟩
  rw [print_octets_of_lt hless, length_append, ← bytes.slice_append_slice] at hslice
  have htext : bytes.slice next.start msg.length text.length = text := by
    refine (append_inj hslice ?_).1
    refine bytes.length_slice ?_
    show _ ≤ next.capacity
    omega
  have hcontent := hsame.content
  simp only [content, hsame.length] at hcontent ⊢
  rw [take_add, hcontent]
  exact congrArg _ htext

variable {realloc : Nat → Bool}

theorem extend_spec (hsound : msg.Sound) {size : Nat} (hsize : 0 < size) :
    msg.buffer_extend realloc size = none ∨
      ∃ next, msg.buffer_extend realloc size = some next ∧ msg.Same next ∧ next.capacity = msg.capacity + size := by
  have hfits := hsound.fits
  rw [buffer_extend, if_neg (Nat.ne_of_gt hsize)]
  split
  · refine .inr ⟨_, rfl, ⟨rfl, rfl, ?_⟩, ?_⟩
    · simp only [content]
      exact take_left' hsound.length_content
    simp only [capacity, length_append, length_replicate, length_take] at hfits ⊢
    omega
  · exact .inl rfl

theorem ensure_spec (hsound : msg.Sound) {room : Nat} (hroom : 0 < room) :
    msg.ensure_open_capacity realloc room = none ∨
      ∃ next, msg.ensure_open_capacity realloc room = some next ∧ msg.Same next ∧ next.Sound ∧
        next.capacity = max msg.capacity (msg.length + room) := by
  have hfits := hsound.fits
  unfold ensure_open_capacity
  rw [if_neg (Nat.ne_of_gt hroom), hsound.unused]
  by_cases hless : room ≤ msg.capacity - msg.length
  · rw [if_pos hless]
    exact .inr ⟨msg, rfl, .refl msg, hsound, by omega⟩
  rw [if_neg hless]
  rcases @extend_spec msg realloc hsound (room - (msg.capacity - msg.length)) (by omega) with
    hnone | ⟨next, hnext, hsame, hcapacity⟩
  · exact .inl hnone
  · exact .inr ⟨next, hnext, hsame, hsame.sound hsound (by omega), by omega⟩

theorem print_loop_spec (exceeds : Nat → Bool) (text : List Byte) (rounds : Nat) {msg : Message} (hsound : msg.Sound)
    (hrounds : text.length + 1 - (msg.capacity - msg.length) < rounds) :
    ∃ ok next, print_loop realloc exceeds text rounds msg = some (ok, next) ∧ msg.Added text ok next := by
  induction rounds generalizing msg with
  | zero => exact absurd hrounds (Nat.not_lt_zero _)
  | succ rounds ih =>
    obtain ⟨mid, hwrite, hsame, hcapacity, hcontent⟩ := print_spec hsound (Nat.le_refl _) text
    have hmid : mid.Sound := hsame.sound hsound (by rw [hcapacity]; exact hsound.fits)
    rw [print_loop, hsound.unused]
    simp only [hwrite]
    cases hprinted : printed text with
    | none => exact ⟨false, mid, rfl, hsame.added hmid text⟩
    | some bytes =>
      obtain rfl : text.length = bytes := by
        unfold printed at hprinted
        split at hprinted
        · exact some.inj hprinted
        · cases hprinted
      simp only
      split
      · obtain ⟨next, hclear, hsame', hcapacity', -⟩ := @write_spec mid
          (List.replicate (msg.capacity - msg.length) 0) hmid (by
            rw [length_replicate, hsame.length, hcapacity]
            exact Nat.le_of_eq (Nat.add_sub_cancel' hsound.fits))
        rw [hclear]
        exact ⟨false, next, rfl, (hsame.trans hsame').added
          (hsame'.sound hmid (by rw [hcapacity']; exact hmid.fits)) text⟩
      split
      · rename_i hless
        refine ⟨true, _, rfl, ⟨hsame.config, ⟨?_, hmid.grows⟩, ?_⟩⟩
        · have hfits := hsound.fits
          show mid.length + text.length ≤ mid.capacity
          rw [hcapacity, hsame.length]
          omega
        rw [hsame.length, if_pos rfl]
        exact hcontent hless
      have hgrows := hmid.grows
      rcases @ensure_spec mid realloc hmid (msg.capacity - msg.length + mid.config.default_size) (by omega) with
        hnone | ⟨grown, hgrown, hsame', hsound', hcapacity'⟩
      · simp only [hnone]
        exact ⟨false, mid, rfl, hsame.added hmid text⟩
      simp only [hgrown]
      have hlength := hsame'.length
      have hlength' := hsame.length
      obtain ⟨ok, next, hloop, hadded⟩ := ih hsound' (by omega)
      exact ⟨ok, next, hloop, hadded.after (hsame.trans hsame')⟩

theorem unprintable (text : List Byte) (hsound : msg.Sound) : msg.Added text false msg :=
  (Same.refl msg).added hsound text

section

variable {behind : Memory} {inet_pton : uri.Family → List Byte → Bool}

theorem add_line_spec (hsound : msg.Sound) (text : List Byte) :
    ∃ ok next, msg.add_line realloc behind inet_pton text = some (ok, next) ∧ msg.Added text ok next := by
  unfold add_line
  split
  · exact ⟨false, msg, rfl, unprintable text hsound⟩
  · exact print_loop_spec msg.exceeds_line text _ hsound (by omega)

theorem add_header_spec (hsound : msg.Sound) {name value : Piece} (hname : name.print = name.octets)
    (hvalue : value.print = value.octets) :
    ∃ ok next, msg.add_header realloc behind inet_pton name value = some (ok, next) ∧
      msg.Added (print_header name.octets value.octets) ok next := by
  unfold add_header
  split
  · exact ⟨false, msg, rfl, unprintable _ hsound⟩
  rw [hname, hvalue]
  exact add_line_spec hsound _

end

theorem close_line_spec (hsound : msg.Sound) {room : Nat} (hroom : room ≤ msg.capacity - msg.length) (hthree : 3 ≤ room) :
    ∃ next, msg.close_line room = some (true, next) ∧ msg.Added crlf true next := by
  obtain ⟨mid, hwrite, hsame, hcapacity, hcontent⟩ := print_spec hsound hroom crlf
  refine ⟨{ mid with length := mid.length + 2 }, by rw [close_line, hwrite]; rfl, hsame.config,
    ⟨?_, hsame.config ▸ hsound.grows⟩, ?_⟩
  · have hfits := hsound.fits
    show mid.length + 2 ≤ mid.capacity
    rw [hcapacity, hsame.length]
    omega
  rw [hsame.length]
  exact hcontent hthree

theorem close_header_spec (hsound : msg.Sound)
    (hroom : 3 ≤ msg.capacity - msg.length + msg.config.default_size) :
    ∃ ok next, msg.close_header realloc = some (ok, next) ∧ msg.Added crlf ok next := by
  unfold close_header
  rw [hsound.unused]
  simp only
  split
  · rcases @ensure_spec msg realloc hsound (msg.capacity - msg.length + msg.config.default_size) (by omega) with
      hnone | ⟨grown, hgrown, hsame, hgrownsound, hcapacity⟩
    · simp only [hnone]
      exact ⟨false, msg, rfl, unprintable crlf hsound⟩
    simp only [hgrown]
    have hlength := hsame.length
    obtain ⟨next, hclose, hadded⟩ := @close_line_spec grown hgrownsound
      (msg.capacity - msg.length + msg.config.default_size) (by omega) hroom
    rw [hsame.config]
    exact ⟨true, next, hclose, hadded.after hsame⟩
  obtain ⟨next, hclose, hadded⟩ := @close_line_spec msg hsound (msg.capacity - msg.length) (Nat.le_refl _) (by omega)
  exact ⟨true, next, hclose, hadded⟩

theorem add_body_spec (hsound : msg.Sound) (body : Piece) :
    ∃ ok next, msg.add_body realloc body = some (ok, next) ∧ msg.Added body.octets ok next := by
  have hoctets : body.octets.length = body.length := by rw [Piece.octets, length_take, Nat.min_eq_left body.within]
  unfold add_body
  split
  · exact ⟨false, msg, rfl, unprintable _ hsound⟩
  split
  · exact ⟨false, msg, rfl, unprintable _ hsound⟩
  rcases @ensure_spec msg realloc hsound body.length (by omega) with
    hnone | ⟨grown, hgrown, hsame, hgrownsound, hcapacity⟩
  · simp only [hnone]
    exact ⟨false, msg, rfl, unprintable _ hsound⟩
  have hroom : grown.length + body.octets.length ≤ grown.capacity := by
    rw [hoctets, hsame.length]
    omega
  obtain ⟨next, hwrite, hsame', hcapacity', hslice⟩ := write_spec hgrownsound hroom
  simp only [hgrown, hwrite]
  refine ⟨true, _, rfl, ⟨(hsame.trans hsame').config, ⟨?_, ?_⟩, ?_⟩⟩
  · show next.length + body.length ≤ next.capacity
    rw [hcapacity', hsame'.length, ← hoctets]
    exact hroom
  · exact (hsame.trans hsame').config ▸ hsound.grows
  have hcontent := (hsame.trans hsame').content
  simp only [content, (hsame.trans hsame').length] at hcontent ⊢
  rw [take_add, hcontent, ← hoctets, ← hsame.length]
  exact congrArg _ hslice

theorem add_body_string_spec (hsound : msg.Sound) (body : Str) :
    ∃ ok next, msg.add_body_string realloc body = some (ok, next) ∧ msg.Added body.1 ok next := by
  unfold add_body_string
  split
  · exact ⟨false, msg, rfl, unprintable _ hsound⟩
  split
  · exact ⟨false, msg, rfl, unprintable _ hsound⟩
  · exact print_loop_spec _ body.1 _ hsound (by omega)

end Message

/-- A length that an `int` can hold, and no NUL. -/
def Piece.Plain (piece : Piece) : Prop := piece.length < 2 ^ 31 ∧ 0 ∉ piece.octets

instance (piece : Piece) : Decidable piece.Plain := inferInstanceAs (Decidable (_ ∧ _))

theorem toInt_ofNat_of_lt {w n : Nat} (h : 2 * n < 2 ^ w) : (BitVec.ofNat w n).toInt = n := by
  have hmod : n % 2 ^ w = n := Nat.mod_eq_of_lt (by omega)
  rw [BitVec.toInt_eq_toNat_of_lt] <;> rw [BitVec.toNat_ofNat, hmod]
  exact h

theorem Piece.print_eq {piece : Piece} (h : piece.Plain) : piece.print = piece.octets := by
  have hlength := h.1
  have hint : (BitVec.ofNat 32 piece.length).toInt = piece.length := toInt_ofNat_of_lt (by omega)
  have hnot : ¬ (piece.length : Int) < 0 := by omega
  simp only [print, hint, if_neg hnot, Int.toNat_natCast]
  exact cstring.of_eq_self h.2

/-- What a message is created with. -/
inductive StartLine where
  | status (version : Version) (code : Nat) (phrase : Piece)
  | status_string (version : Version) (code : Nat) (phrase : Str)
  | request (version : Version) (method uri : Piece)
  | request_string (version : Version) (method uri : Str)

namespace StartLine

variable (cached : Nat) (config : MessageConfig)

def create : StartLine → Option Message
  | status version code phrase => create_status cached config version code phrase
  | status_string version code phrase => create_status_string cached config version code phrase
  | request version method uri => create_request cached config version method uri
  | request_string version method uri => create_request_string cached config version method uri

def text : StartLine → List Byte
  | status version code phrase => print_status version code phrase.octets
  | status_string version code phrase => print_status version code phrase.1
  | request version method uri => print_request version method.octets uri.octets
  | request_string version method uri => print_request version method.1 uri.1

/-- The parts of the line are printed as they are. -/
def Plain : StartLine → Prop
  | status _ _ phrase => phrase.Plain
  | request _ method uri => method.Plain ∧ uri.Plain
  | _ => True

instance : ∀ line : StartLine, Decidable line.Plain
  | status _ _ phrase => inferInstanceAs (Decidable phrase.Plain)
  | request _ method uri => inferInstanceAs (Decidable (method.Plain ∧ uri.Plain))
  | status_string _ _ _ | request_string _ _ _ => isTrue trivial

/-- The line is printed as it is, and is not longer than the first buffer. -/
def Fits (line : StartLine) : Prop :=
  line.Plain ∧ line.text.length ≤ (message_create cached config).capacity

instance (line : StartLine) : Decidable (line.Fits cached config) := inferInstanceAs (Decidable (_ ∧ _))

variable {cached : Nat} {config : MessageConfig}

theorem message_create_sound : (message_create cached config).Sound where
  fits := Nat.zero_le _
  grows := by
    simp only [message_create, config_init]
    split <;> omega

theorem create_line_spec {line : List Byte} {msg : Message}
    (hcreate : create_line (message_create cached config) line = some msg)
    (hfits : line.length ≤ (message_create cached config).capacity) : msg.Sound ∧ msg.content = line := by
  have hsound := @message_create_sound cached config
  unfold create_line at hcreate
  cases hprinted : printed line with
  | none => simp [hprinted] at hcreate
  | some bytes =>
    simp only [hprinted] at hcreate
    unfold printed at hprinted
    split at hprinted
    · rename_i hsmall
      obtain rfl := some.inj hprinted
      split at hcreate
      · cases hcreate
      rename_i hother
      have hless : line.length < (message_create cached config).capacity := by
        rcases Nat.lt_or_eq_of_le hfits with hless | heq
        · exact hless
        refine absurd ?_ hother
        rw [← heq, ssize, toInt_ofNat_of_lt (by omega)]
      obtain ⟨mid, hwrite, hsame, hcapacity, hcontent⟩ :=
        Message.print_spec hsound (Nat.le_refl ((message_create cached config).capacity - 0)) line
      have hcreate : ((message_create cached config).write
          (print_octets ((message_create cached config).capacity - 0) line)).map
            (fun msg => { msg with length := line.length }) = some msg := hcreate
      rw [hwrite] at hcreate
      obtain rfl := some.inj hcreate
      refine ⟨⟨?_, hsame.config ▸ hsound.grows⟩, ?_⟩
      · show line.length ≤ mid.capacity
        omega
      have hall := hcontent hless
      have hzero : (message_create cached config).length = 0 := rfl
      have hnil : (message_create cached config).content = [] := rfl
      simpa [hzero, hnil] using hall
    · cases hprinted

theorem create_line_cut {line : List Byte} (hlong : (message_create cached config).capacity < line.length)
    (hsmall : line.length < 2 ^ 31) :
    ∃ msg, create_line (message_create cached config) line = some msg ∧ msg.length = line.length ∧
      msg.capacity = (message_create cached config).capacity := by
  have hother : ¬ (line.length : Int) = ssize (message_create cached config).capacity := by
    rw [ssize, toInt_ofNat_of_lt (by omega)]
    omega
  obtain ⟨mid, hwrite, -, hcapacity, -⟩ := Message.print_spec (@message_create_sound cached config)
    (Nat.le_refl ((message_create cached config).capacity - 0)) line
  have hwrite : (message_create cached config).write (print_octets (message_create cached config).capacity line) =
      some mid := hwrite
  refine ⟨{ mid with length := line.length }, ?_, rfl, hcapacity⟩
  simp only [create_line, printed, if_pos hsmall, if_neg hother, hwrite, map_some]

theorem create_spec {line : StartLine} (hfits : line.Fits cached config) {msg : Message}
    (hcreate : line.create cached config = some msg) : msg.Sound ∧ msg.content = line.text := by
  obtain ⟨hplain, hlength⟩ := hfits
  cases line with
  | status version code phrase =>
    simp only [create, create_status, Piece.print_eq hplain, ite_none_left_eq_some] at hcreate
    exact create_line_spec hcreate.2.2 hlength
  | status_string version code phrase =>
    simp only [create, create_status_string, ite_none_left_eq_some] at hcreate
    exact create_line_spec hcreate.2 hlength
  | request version method uri =>
    simp only [create, create_request, Piece.print_eq hplain.1, Piece.print_eq hplain.2,
      ite_none_left_eq_some] at hcreate
    exact create_line_spec hcreate.2.2.2.2 hlength
  | request_string version method uri =>
    simp only [create, create_request_string, ite_none_left_eq_some] at hcreate
    exact create_line_spec hcreate.2.2 hlength

end StartLine

/-- What is added to a message. -/
inductive Addition where
  | header (name value : Piece)
  | header_string (key val : Str)
  | close
  | body (body : Piece)
  | body_string (body : Str)

namespace Addition

section

variable (realloc : Nat → Bool) (behind : Message → Memory) (inet_pton : uri.Family → List Byte → Bool)

/-- The call for an addition; what lies behind the buffer may depend on the message. -/
def add (addition : Addition) (msg : Message) : Option (Bool × Message) :=
  match addition with
  | header name value => msg.add_header realloc (behind msg) inet_pton name value
  | header_string key val => msg.add_header_string realloc (behind msg) inet_pton key val
  | close => msg.close_header realloc
  | body piece => msg.add_body realloc piece
  | body_string s => msg.add_body_string realloc s

def text : Addition → List Byte
  | header name value => Message.print_header name.octets value.octets
  | header_string key val => Message.print_header key.1 val.1
  | close => crlf
  | body piece => piece.octets
  | body_string s => s.1

/-- The parts of a header are printed as they are, and the empty line has room where the buffer
grows by its default size. -/
def Fits (msg : Message) : Addition → Prop
  | header name value => name.Plain ∧ value.Plain
  | close => 3 ≤ msg.capacity - msg.length + msg.config.default_size
  | _ => True

instance (msg : Message) : ∀ addition : Addition, Decidable (addition.Fits msg)
  | header name value => inferInstanceAs (Decidable (name.Plain ∧ value.Plain))
  | close => inferInstanceAs (Decidable (3 ≤ _))
  | header_string _ _ | body _ | body_string _ => isTrue trivial

/-- The message after an addition, whether it succeeded or not. -/
def step (addition : Addition) (msg : Message) : Option Message :=
  (addition.add realloc behind inet_pton msg).map Prod.snd

/-- The text of an addition that succeeds. -/
def succeeded (addition : Addition) (msg : Message) : List (List Byte) :=
  match addition.add realloc behind inet_pton msg with
  | some (true, _) => [addition.text]
  | _ => []

/-- Additions one after the other, with the texts of those that succeed. -/
def build : List Addition → Message × List (List Byte) → Option (Message × List (List Byte)) :=
  machine.run (machine.logged (step realloc behind inet_pton) (succeeded realloc behind inet_pton))

/-- All additions fit into the messages they are made to. -/
def AllFit : List Addition → Message × List (List Byte) → Prop :=
  machine.along (machine.logged (step realloc behind inet_pton) (succeeded realloc behind inet_pton))
    fun s addition => addition.Fits s.1

end

variable {realloc : Nat → Bool} {behind : Message → Memory} {inet_pton : uri.Family → List Byte → Bool}

theorem add_spec {addition : Addition} {msg : Message} (hsound : msg.Sound) (hfits : addition.Fits msg) :
    ∃ ok next, addition.add realloc behind inet_pton msg = some (ok, next) ∧ msg.Added addition.text ok next := by
  cases addition with
  | header name value => exact Message.add_header_spec hsound (Piece.print_eq hfits.1) (Piece.print_eq hfits.2)
  | header_string key val => exact Message.add_line_spec hsound _
  | close => exact Message.close_header_spec hsound hfits
  | body body => exact Message.add_body_spec hsound body
  | body_string body => exact Message.add_body_string_spec hsound body

/-- A message holds its start line and the texts of the additions that succeeded. -/
structure Holds (line : List Byte) (s : Message × List (List Byte)) : Prop where
  sound : s.1.Sound
  content : s.1.content = line ++ s.2.reverse.flatten

theorem holds_step {line : List Byte} {s : Message × List (List Byte)} (h : Holds line s) {addition : Addition}
    (hfits : addition.Fits s.1) :
    ∃ s', machine.logged (step realloc behind inet_pton) (succeeded realloc behind inet_pton) addition s = some s' ∧
      Holds line s' := by
  obtain ⟨ok, next, hadd, hadded⟩ := @add_spec realloc behind inet_pton addition s.1 h.sound hfits
  refine ⟨(next, succeeded realloc behind inet_pton addition s.1 ++ s.2),
    machine.logged_eq_some_iff.mpr ⟨by rw [step, hadd, map_some], rfl⟩, hadded.sound, ?_⟩
  rw [hadded.content, h.content]
  cases ok <;> simp [succeeded, hadd]

end Addition

/-- As long as everything fits, the message is its start line and the texts of all additions that
succeeded, the buffer is not used beyond its end, and an addition that fails leaves the length and
the text as they were. -/
theorem built_exactly (realloc : Nat → Bool) (behind : Message → Memory)
    (inet_pton : uri.Family → List Byte → Bool) (cached : Nat) (config : MessageConfig) (line : StartLine)
    (hline : line.Fits cached config) (msg : Message) (hcreate : line.create cached config = some msg)
    (additions : List Addition) (hadditions : Addition.AllFit realloc behind inet_pton additions (msg, [])) :
    ∃ last texts, Addition.build realloc behind inet_pton additions (msg, []) = some (last, texts) ∧
      last.content = line.text ++ texts.reverse.flatten ∧
      last.length = (line.text ++ texts.reverse.flatten).length ∧ last.length ≤ last.capacity ∧
      ∀ addition : Addition, addition.Fits last →
        ∃ ok next, addition.add realloc behind inet_pton last = some (ok, next) ∧
          (ok = false → next.length = last.length ∧ next.content = last.content) := by
  obtain ⟨hsound, hcontent⟩ := StartLine.create_spec hline hcreate
  have hfirst : Addition.Holds line.text (msg, []) := ⟨hsound, by simpa using hcontent⟩
  have hstep : ∀ s (a : Addition), Addition.Holds line.text s → a.Fits s.1 → ∃ s',
      machine.logged (Addition.step realloc behind inet_pton) (Addition.succeeded realloc behind inet_pton) a s =
        some s' ∧ Addition.Holds line.text s' := fun _ _ hs hfits => Addition.holds_step hs hfits
  obtain ⟨⟨last, texts⟩, hrun, hholds⟩ := machine.run_defined _ _ hstep additions hfirst hadditions
  refine ⟨last, texts, hrun, hholds.content, ?_, hholds.sound.fits, fun addition hfits => ?_⟩
  · rw [← hholds.sound.length_content, hholds.content]
  · obtain ⟨ok, next, hadd, hadded⟩ :=
      @Addition.add_spec realloc behind inet_pton addition last hholds.sound hfits
    refine ⟨ok, next, hadd, ?_⟩
    rintro rfl
    have hlength := hadded.length hholds.sound
    have hcontent := hadded.content
    exact ⟨by simpa using hlength, by simpa using hcontent⟩

def method_get : Str := ⟨[71, 69, 84], by decide⟩

def name_host : Str := ⟨[72, 111, 115, 116], by decide⟩

def text_a : Str := ⟨[97], by decide⟩

def uri_root : Str := ⟨[47], by decide⟩

/-- A request in a buffer that has to grow for the header line. -/
theorem request_built : ∃ msg last texts,
    (StartLine.request_string ⟨1, 1⟩ method_get uri_root).create 0 { default_size := 20 } = some msg ∧
      Addition.build (fun _ => true) (fun _ _ => 0) (fun _ _ => false)
        [.header_string name_host text_a, .close, .body_string text_a] (msg, []) = some (last, texts) ∧
      texts.length = 3 ∧
      last.content = (StartLine.request_string ⟨1, 1⟩ method_get uri_root).text ++ texts.reverse.flatten ∧
      last.length ≤ last.capacity := by
  have hcreate : ((StartLine.request_string ⟨1, 1⟩ method_get uri_root).create 0 { default_size := 20 }).isSome = true := by
    decide +kernel
  obtain ⟨msg, hcreate⟩ := isSome_iff_exists.mp hcreate
  have hall : ∀ msg ∈ (StartLine.request_string ⟨1, 1⟩ method_get uri_root).create 0 { default_size := 20 },
      Addition.AllFit (fun _ => true) (fun _ _ => 0) (fun _ _ => false)
          [.header_string name_host text_a, .close, .body_string text_a] (msg, []) ∧
        (Addition.build (fun _ => true) (fun _ _ => 0) (fun _ _ => false)
          [.header_string name_host text_a, .close, .body_string text_a] (msg, [])).map (fun s => s.2.length) = some 3 := by
    unfold Addition.AllFit
    decide +kernel
  obtain ⟨hadditions, hthree⟩ := hall msg hcreate
  obtain ⟨last, texts, hbuild, hcontent, -, hfits, -⟩ := built_exactly (fun _ => true) (fun _ _ => 0)
    (fun _ _ => false) 0 { default_size := 20 } (.request_string ⟨1, 1⟩ method_get uri_root) (by decide +kernel) msg hcreate _ hadditions
  rw [hbuild] at hthree
  exact ⟨msg, last, texts, hcreate, hbuild, some.inj hthree, hcontent, hfits⟩

def long_uri : Str := ⟨List.replicate 4096 97, fun h => absurd (eq_of_mem_replicate h) (by decide)⟩

theorem length_long_request : (print_request ⟨1, 1⟩ method_get.1 long_uri.1).length = 4111 := by
  have hversion : (print_version ⟨1, 1⟩).length = 8 := by decide +kernel
  have hmethod : method_get.1.length = 3 := rfl
  simp only [print_request, length_append, length_cons, hversion, hmethod, long_uri, length_replicate, crlf, length_nil]

/-- With the default buffer of 4096 octets a request with a URI of 4096 octets is created, and is
longer than its buffer. -/
theorem long_request_cut : ∃ msg, (StartLine.request_string ⟨1, 1⟩ method_get long_uri).create 0 {} = some msg ∧
    msg.length = 4111 ∧ msg.capacity = 4096 ∧
    msg.content ≠ (StartLine.request_string ⟨1, 1⟩ method_get long_uri).text := by
  have hcapacity : (message_create 0 {}).capacity = 4096 := length_replicate
  obtain ⟨msg, hcreate, hlength, hroom⟩ := @StartLine.create_line_cut 0 {} (print_request ⟨1, 1⟩ method_get.1 long_uri.1)
    (by rw [hcapacity, length_long_request]; omega) (by rw [length_long_request]; omega)
  rw [length_long_request] at hlength
  rw [hcapacity] at hroom
  have huri : ¬ path_max < long_uri.1.length := by
    rw [long_uri, length_replicate]
    decide
  refine ⟨msg, ?_, hlength, hroom, fun hcontent => ?_⟩
  · rw [StartLine.create, create_request_string]
    exact (if_neg (by decide)).trans ((if_neg huri).trans hcreate)
  · have htext := congrArg List.length hcontent
    have hstart : msg.start.length = 4096 := hroom
    rw [StartLine.text, length_long_request, Message.content, length_take, hstart] at htext
    omega

open memory cstring

section

variable {m : Memory} {p max array_size : Nat} {ls : List HeaderLine} {following : List Byte}

/-- A line as it is printed: no white space around the value. -/
def HeaderLine.Printed (l : HeaderLine) : Prop := l.lead = [] ∧ l.trail = []

theorem HeaderLine.Printed.seen {l : HeaderLine} (h : l.Printed) (rest : Nat) : l.seen p rest = l.header p := by
  refine HeaderLine.seen_of_whole ?_
  rw [kept, h.1, length_nil, Nat.zero_sub]

theorem parse_printed_line {l : HeaderLine} (hprinted : l.Printed) (h : l.Legal max) {c : Byte} {b : List Byte}
    (hm : Holds m p (l.text ++ c :: b)) (hc : is_whitespace c = false) :
    parse_header_line m max p (l.text ++ c :: b).length = .success (l.header p, p + l.text.length) := by
  rw [← hprinted.seen (c :: b).length]
  by_cases hvalue : l.value = []
  · exact parse_header_line_empty h hvalue hprinted.1 hprinted.2 hm hc
  · rw [parse_header_line_value h hvalue hm hc, if_neg (fun hand => hand.1 hprinted.2)]

theorem parse_printed_section (hprinted : ∀ l ∈ ls, l.Printed) (hlegal : ∀ l ∈ ls, l.Legal max)
    (hsize : ls.length < array_size) (hm : Holds m p (section_text ls ++ following)) :
    parse_header m max array_size p (section_text ls ++ following).length =
      .success (section_headers p ls, p + (section_text ls).length) := by
  induction ls generalizing p array_size with
  | nil =>
    obtain ⟨n, rfl⟩ := Nat.exists_eq_add_of_lt hsize
    exact parse_header_end hm
  | cons l ls ih =>
    obtain ⟨n, rfl⟩ : ∃ n, array_size = n + 1 := ⟨array_size - 1, by omega⟩
    obtain ⟨hl, hls⟩ := forall_mem_cons.mp hlegal
    obtain ⟨hp, hps⟩ := forall_mem_cons.mp hprinted
    have htext : section_text (l :: ls) ++ following = l.text ++ (section_text ls ++ following) := by
      simp [section_text]
    obtain ⟨c, b, hfirst, hc⟩ := lines_head hls (c := cr) (by decide) (lf :: following)
    have hsection : section_text ls ++ following = c :: b := by
      rw [← hfirst]
      simp [section_text, crlf]
    rw [htext] at hm ⊢
    have hrest := ih hps hls (by simpa using hsize) (holds_append.mp hm).2
    have hline := parse_printed_line hp hl (by rwa [hsection] at hm) hc
    rw [← hsection] at hline
    rw [parse_header_step hline, hrest, Parsed.cons, section_headers]
    simp [section_text]
    omega

theorem section_headers_read (hm : Holds m p (section_text ls ++ following)) :
    (section_headers p ls).map (fun header => (header.name.read m, header.value.read m)) =
      ls.map fun l => (l.name, l.value) := by
  induction ls generalizing p with
  | nil => rfl
  | cons l ls ih =>
    have htext : section_text (l :: ls) ++ following = l.text ++ (section_text ls ++ following) := by
      simp [section_text]
    rw [htext] at hm
    obtain ⟨hline, hrest⟩ := holds_append.mp hm
    obtain ⟨hname, -, -, hvalue, -⟩ := HeaderLine.holds_parts hline
    rw [section_headers, map_cons, ih hrest, map_cons]
    simp only [HeaderLine.header, Pointer.read, hname.read, hvalue.read]

end

/-- The additions to a request with some headers and a body. -/
def Addition.rest (headers : List (Str × Str)) (body : Str) : List Addition :=
  headers.map (fun header => .header_string header.1 header.2) ++ [.close, .body_string body]

/-- The request line that is printed. -/
def printed_line (version : Version) (method uri : Str) : RequestLine :=
  ⟨method.1, uri.1, cstring.decimal version.major.toNat, cstring.decimal version.minor.toNat⟩

/-- The line that is printed for a header. -/
def printed_header (header : Str × Str) : HeaderLine := ⟨header.1.1, [], header.2.1, []⟩

theorem rest_text (headers : List (Str × Str)) (body : Str) :
    ((Addition.rest headers body).map Addition.text).flatten = section_text (headers.map printed_header) ++ body.1 := by
  have hheaders : ((headers.map fun header => Addition.header_string header.1 header.2).map Addition.text).flatten =
      (headers.map printed_header).flatMap HeaderLine.text := by
    rw [List.map_map, flatMap_map, flatMap_def]
    congr 1
    refine map_congr_left fun header _ => ?_
    simp [Addition.text, Message.print_header, printed_header, HeaderLine.text, HeaderLine.line, colon]
  rw [Addition.rest, map_append, flatten_append, hheaders, section_text]
  simp [Addition.text]

/-- What the octets at an address are read as: a request line, the headers behind it, and what is left. -/
def ReadsAs (inet_pton : uri.Family → List Byte → Bool) (max_method_name max array_size : Nat) (m : Memory)
    (p size : Nat) (version : Version) (method uri body : Str) (headers : List (Str × Str)) : Prop :=
  ∃ request next parsed rest, parse_request_line inet_pton m max_method_name p size = .success (request, next) ∧
    parse_header m max array_size next (size - (next - p)) = .success (parsed, rest) ∧
    (request.method.read m, request.uri.read m, request.version) = (method.1, uri.1, version) ∧
    parsed.map (fun header => (header.name.read m, header.value.read m)) =
      headers.map (fun header => (header.1.1, header.2.1)) ∧
    memory.read m rest (p + size - rest) = body.1

/-- A request that was built is read back: its method, URI, version and headers are the ones it was built with,
and the body is what is left behind them. -/
theorem built_request_read (realloc : Nat → Bool) (behind : Message → Memory)
    (inet_pton : uri.Family → List Byte → Bool) (cached : Nat) (config : MessageConfig) (version : Version)
    (method uri body : Str) (headers : List (Str × Str)) (msg last : Message)
    (hfits : (StartLine.request_string version method uri).Fits cached config)
    (hcreate : (StartLine.request_string version method uri).create cached config = some msg)
    (hadditions : Addition.AllFit realloc behind inet_pton (Addition.rest headers body) (msg, []))
    (hbuild : Addition.build realloc behind inet_pton (Addition.rest headers body) (msg, []) =
      some (last, ((Addition.rest headers body).map Addition.text).reverse))
    (max_method_name max array_size : Nat) (hlegal : (printed_line version method uri).Legal max_method_name)
    (hreadable : (printed_line version method uri).Readable inet_pton max_method_name)
    (hheaders : ∀ header ∈ headers, (printed_header header).Legal max) (hsize : headers.length < array_size)
    (m : Memory) (p : Nat) (hm : Holds m p last.content) :
    ReadsAs inet_pton max_method_name max array_size m p last.length version method uri body headers := by
  obtain ⟨hsound, hcontent⟩ := StartLine.create_spec hfits hcreate
  have hfirst : Addition.Holds (printed_line version method uri).text (msg, []) := by
    refine ⟨hsound, ?_⟩
    rw [hcontent, reverse_nil, flatten_nil, List.append_nil]
    rfl
  have hholds : Addition.Holds (printed_line version method uri).text
      (last, ((Addition.rest headers body).map Addition.text).reverse) := by
    obtain ⟨s, hrun, hholds⟩ := machine.run_defined _ _ (fun _ _ hs hfits => Addition.holds_step hs hfits)
      (Addition.rest headers body) hfirst hadditions
    rw [Addition.build, hrun] at hbuild
    rwa [← some.inj hbuild]
  have htext : last.content = (printed_line version method uri).text ++
      (section_text (headers.map printed_header) ++ body.1) := by
    rw [hholds.content, reverse_reverse, rest_text]
  have hlength := hholds.sound.length_content
  rw [htext] at hm hlength
  have hsection := (holds_append.mp hm).2
  have hrequest := hreadable.success hlegal hm
  rw [hlength] at hrequest
  have hparsed := parse_printed_section (forall_mem_map.mpr fun _ _ => ⟨rfl, rfl⟩) (forall_mem_map.mpr hheaders)
    (by rwa [length_map]) hsection
  have hleft : last.length - (p + (printed_line version method uri).text.length - p) =
      (section_text (headers.map printed_header) ++ body.1).length := by
    rw [← hlength, length_append]
    omega
  rw [← hleft] at hparsed
  obtain ⟨hmethod, -, huri⟩ := holds_append.mp (holds_append.mp hm).1
  have hbody := (holds_append.mp hsection).2.read
  refine ⟨_, _, _, _, hrequest, hparsed, ?_, ?_, ?_⟩
  · have hmethod' := hmethod.read
    have huri' := (holds_append.mp huri).1.read
    simp only [RequestLine.request, Pointer.read, printed_line, value_decimal] at hmethod' huri' ⊢
    rw [hmethod', huri']
    simp
  · rw [section_headers_read hsection, List.map_map]
    rfl
  have hrest : p + last.length - (p + (printed_line version method uri).text.length +
      (section_text (headers.map printed_header)).length) = body.1.length := by
    rw [← hlength, length_append, length_append]
    omega
  rw [hrest, hbody]

/-- A request with a header and a body is read at the address 0. -/
theorem built_request_read_host : ∃ last : Message, ReadsAs (fun _ _ => false) 7 1000 100
    (memory.of last.content fun _ => 0) 0 last.length ⟨1, 1⟩ method_get uri_root text_a [(name_host, text_a)] := by
  have hall : ∀ msg ∈ (StartLine.request_string ⟨1, 1⟩ method_get uri_root).create 0 { default_size := 20 },
      Addition.AllFit (fun _ => true) (fun _ _ => 0) (fun _ _ => false) (Addition.rest [(name_host, text_a)] text_a) (msg, []) ∧
        (Addition.build (fun _ => true) (fun _ _ => 0) (fun _ _ => false) (Addition.rest [(name_host, text_a)] text_a)
          (msg, [])).map Prod.snd = some ((Addition.rest [(name_host, text_a)] text_a).map Addition.text).reverse := by
    unfold Addition.AllFit
    decide +kernel
  obtain ⟨msg, hcreate⟩ := isSome_iff_exists.mp (show ((StartLine.request_string ⟨1, 1⟩ method_get uri_root).create 0
    { default_size := 20 }).isSome = true by decide +kernel)
  obtain ⟨hadditions, hbuild⟩ := hall msg hcreate
  obtain ⟨⟨last, _⟩, hbuild, rfl⟩ := map_eq_some_iff.mp hbuild
  have hline : printed_line ⟨1, 1⟩ method_get uri_root = get_root := by decide +kernel
  exact ⟨last, built_request_read _ _ _ 0 { default_size := 20 } ⟨1, 1⟩ method_get
    uri_root text_a [(name_host, text_a)] msg last (by decide +kernel) hcreate hadditions hbuild 7 1000 100
    (hline ▸ get_root_legal) (hline ▸ ⟨by decide, by decide, rfl, rfl⟩)
    (by simpa using (show (printed_header (name_host, text_a)).Legal 1000 from host_a_legal)) (by decide) _ 0
    (holds_of _ _)⟩

end openvocs.http
