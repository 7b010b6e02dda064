import Mathlib.Data.List.ReduceOption
import Openvocs.Rtp.Frame

/-!
Where the code multiplies a sample by a factor in floating point, the product is a parameter. Of the
sums that are kept for the detection of voice, only the division by the number of samples is
left out.
-/

namespace openvocs.pcm

def int16_max : Int := 2 ^ 15 - 1
def int16_min : Int := -2 ^ 15
def int32_max : Int := 2 ^ 31 - 1
def int32_min : Int := -2 ^ 31

def clip_to_16_bit (val : BitVec 32) : BitVec 16 :=
  let val := if int16_max < val.toInt then BitVec.ofInt 32 int16_max else val
  let val := if int16_min > val.toInt then BitVec.ofInt 32 int16_min else val
  BitVec.ofInt 16 val.toInt

def clip_to_32_bit (val : BitVec 64) : BitVec 32 :=
  let val := if int32_max < val.toInt then BitVec.ofInt 64 int32_max else val
  let val := if int32_min > val.toInt then BitVec.ofInt 64 int32_min else val
  BitVec.ofInt 32 val.toInt

/-- `abs`, stored in 16 bits. -/
def abs_16 (val : BitVec 16) : BitVec 16 := BitVec.ofInt 16 |val.toInt|

/-- What is counted over samples. -/
structure Audio where
  zero_crossings : Nat := 0
  power : Nat := 0
  max : BitVec 16 := 0

def audio_step (audio : Audio) (oldval val : BitVec 16) : Audio where
  zero_crossings := if oldval.toInt * val.toInt ≤ 0 then audio.zero_crossings + 1 else audio.zero_crossings
  power := audio.power + val.toInt.natAbs * val.toInt.natAbs
  max := if (abs_16 val).toInt > audio.max.toInt then abs_16 val else audio.max

def audio_loop : Audio → BitVec 16 → List (BitVec 16) → Audio
  | audio, _, [] => audio
  | audio, oldval, val :: rest => audio_loop (audio_step audio oldval val) val rest

/-- `ov_pcm_16_get_audio_params`. Nothing is written if there are no samples. -/
def ov_pcm_16_get_audio_params : List (BitVec 16) → Option Audio
  | [] => none
  | first :: rest => some (audio_loop {} first (first :: rest))

/-- `ov_pcm_16_scale_to_32`, with the samples that are written. -/
def ov_pcm_16_scale_to_32 (scaled : BitVec 16 → BitVec 32) : List (BitVec 16) → Option (List (BitVec 32) × Audio)
  | [] => none
  | first :: rest => some ((first :: rest).map scaled, audio_loop {} first (first :: rest))

/-- The macro `ABS`. It is `none` where the negation overflows, which is not defined. -/
def abs_32 (x : BitVec 32) : Option (BitVec 32) :=
  if x.toInt < 0 then if x = BitVec.intMin 32 then none else some (-x) else some x

/-- The loop of `ov_pcm_32_normalize_to` that looks for the peak. It compares the absolute
    value, without sign, and keeps the sample. -/
def peak_loop : BitVec 32 → List (BitVec 32) → Option (BitVec 32)
  | max_val, [] => some max_val
  | max_val, x :: rest =>
    (abs_32 x).bind fun absval => peak_loop (if max_val.toNat < absval.toNat then x else max_val) rest

def peak (samples : List (BitVec 32)) : Option (BitVec 32) := peak_loop 0 samples

/-- `ov_pcm_32_normalize_to`. The factor is the quotient of the amplitude and the peak. -/
def ov_pcm_32_normalize_to (scaled : BitVec 32 → BitVec 32 → BitVec 32 → BitVec 32) (samples : List (BitVec 32))
    (max_amplitude : BitVec 32) : Option (List (BitVec 32)) :=
  (peak samples).map fun max_val => samples.map (scaled max_amplitude max_val)

def ov_pcm_32_clip_to_16 (samples : List (BitVec 32)) : List (BitVec 16) := samples.map clip_to_16_bit

/-- One step of `ov_pcm_32_add`. -/
def add_32 (a b : BitVec 32) : BitVec 32 := clip_to_32_bit (a.signExtend 64 + b.signExtend 64)

/-- `ov_pcm_32_add`, with what becomes of the first array. -/
def ov_pcm_32_add : Nat → List (BitVec 32) → List (BitVec 32) → List (BitVec 32)
  | n + 1, a :: in1, b :: in2 => add_32 a b :: ov_pcm_32_add n in1 in2
  | _, in1, _ => in1

structure FrameData where
  pcm16s_32bit : List (BitVec 32)
  sequence_number : BitVec 16 := 0
  timestamp : BitVec 32 := 0
  payload_type : Byte := 0
  ssid : BitVec 32 := 0
  num_samples : Nat := pcm16s_32bit.length
  max_amplitude : BitVec 16 := 0
  size : num_samples = pcm16s_32bit.length := by simp

/-- The length of the samples in octets. -/
def FrameData.length (frame : FrameData) : Nat := 4 * frame.pcm16s_32bit.length

section

variable {V : Type}

/-- A volume as it is given, or brought to the full range by a division by the peak. -/
inductive Volume (V : Type) where
  | given (volume : V)
  | normalized (volume : V) (divisor : BitVec 16)

/-- How the samples of a frame are scaled. -/
inductive Conversion (V : Type) where
  | scale (volume : Volume V)
  | fade (from_ to_ : Volume V)

/-- The branches of `frame_data_from_pcm_with_vad`. -/
def conversion (voice_detected voice_was_detected drop_no_va : Bool) (volume : V) (max_amplitude : BitVec 16) :
    Option (Conversion V) :=
  if voice_detected then
    if voice_was_detected then some (.scale (.normalized volume max_amplitude))
    else some (.fade (.given volume) (.normalized volume max_amplitude))
  else if drop_no_va then none
  else if voice_was_detected then some (.fade (.normalized volume max_amplitude) (.given volume))
  else some (.scale (.given volume))

variable (voice : Audio → Nat → Bool) (convert : Conversion V → List (BitVec 16) → List (BitVec 32))

/-- `frame_data_from_pcm_with_vad`, with the flag that is left in the stream. -/
def frame_data_from_pcm_with_vad (decoded : List (BitVec 16)) (frame : rtp.Expansion) (drop_no_va : Bool)
    (volume : V) (voice_was_detected : Bool) : Option FrameData × Bool :=
  let audio := (ov_pcm_16_get_audio_params decoded).getD {}
  let voice_detected := voice audio decoded.length
  ((conversion voice_detected voice_was_detected drop_no_va volume audio.max).map fun c =>
    { pcm16s_32bit := convert c decoded
      sequence_number := frame.sequence_number
      timestamp := frame.timestamp
      payload_type := frame.payload_type
      ssid := frame.ssrc
      max_amplitude := audio.max },
    voice_detected)

end

/-- `frame_length_from_frame_list`: the length in octets, and the number of samples. -/
def frame_length_from_frame_list : List (Option FrameData) → Nat × Nat
  | [] => (0, 0)
  | none :: frames => frame_length_from_frame_list frames
  | some frame :: frames =>
    if frame.length ≠ 0 then (frame.length, frame.num_samples) else frame_length_from_frame_list frames

/-- The body of the loop in `mix_nocheck`. -/
def mix_frame (length_bytes num_samples : Nat) (result : List (BitVec 32)) : Option FrameData → List (BitVec 32)
  | none => result
  | some frame =>
    if length_bytes ≠ frame.length then result else ov_pcm_32_add num_samples result frame.pcm16s_32bit

def mix_nocheck (frames : List (Option FrameData)) (length_bytes num_samples : Nat) : Option (List (BitVec 32)) :=
  if length_bytes = 0 then none
  else some (frames.foldl (mix_frame length_bytes num_samples) (List.replicate (length_bytes / 4) 0))

/-- The end of `mix_frames_nocheck`, with the samples as they are encoded. -/
def mixed (frames : List (Option FrameData)) : Option (List (BitVec 16)) :=
  (mix_nocheck frames (frame_length_from_frame_list frames).1 (frame_length_from_frame_list frames).2).map
    ov_pcm_32_clip_to_16

end openvocs.pcm
