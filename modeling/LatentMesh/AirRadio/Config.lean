import LatentMesh.AirCore.Wire

/-!
# Link configuration

The link parameters of `config.rs` and the modem parameters of `modem.rs`.
-/

namespace LatentMesh.AirRadio

open LatentMesh.AirCore

/-- The parameters of the phase modulation. -/
structure BpskConfig where
  samplesPerSymbol : UInt16
  amplitude : Float32

/-- `!amplitude.is_finite() || amplitude <= 0.0 || amplitude > 1.0`. -/
def badAmplitude (amplitude : Float32) : Bool :=
  !amplitude.isFinite || decide (amplitude ≤ 0) || decide (1 < amplitude)

/-- `BpskConfig::validate`. -/
def BpskConfig.validate (self : BpskConfig) : Result Unit :=
  if self.samplesPerSymbol = 0 ∨ 4096 < self.samplesPerSymbol ∨ badAmplitude self.amplitude then
    .error .invalidLength
  else .ok ()

/-- The parameters of the frequency modulation. -/
structure CpfskConfig where
  sampleRate : UInt32
  symbolRate : UInt32
  markHz : UInt32
  spaceHz : UInt32
  amplitude : Float32

/-- `CpfskConfig::samples_per_symbol`. -/
def CpfskConfig.samplesPerSymbol (self : CpfskConfig) : UInt32 := self.sampleRate / self.symbolRate

/-- `value.saturating_mul(2)`. -/
def doubled (value : UInt32) : Nat := min (2 * value.toNat) (2 ^ 32 - 1)

/-- `CpfskConfig::validate`. -/
def CpfskConfig.validate (self : CpfskConfig) : Result Unit :=
  if self.symbolRate = 0 ∨ self.sampleRate = 0 ∨ self.sampleRate % self.symbolRate ≠ 0 ∨
      self.samplesPerSymbol < 4 ∨ 4096 < self.samplesPerSymbol ∨ self.markHz = self.spaceHz ∨
      self.sampleRate.toNat ≤ doubled self.markHz ∨ self.sampleRate.toNat ≤ doubled self.spaceHz ∨
      badAmplitude self.amplitude then .error .invalidLength
  else .ok ()

/-- How the bits of a frame are sent. -/
inductive Modulation where
  | byteTransport
  | bpsk (config : BpskConfig)
  | cpfsk (config : CpfskConfig)

/-- `matches!(modulation, Modulation::ByteTransport)`. -/
def Modulation.isByteTransport : Modulation → Bool
  | .byteTransport => true
  | _ => false

/-- The parameters of a link. -/
structure LinkConfig where
  profile : WireProfile
  /-- The outer-frame MTU, with the framing overhead. -/
  frameMtu : Nat
  flags : FrameFlags
  interleaverColumns : Nat
  modulation : Modulation

/-- `LinkConfig::validate`. -/
def LinkConfig.validate (self : LinkConfig) : Result Unit :=
  if ¬ (16 ≤ self.frameMtu ∧ self.frameMtu ≤ frameMaxBytes) ∨ self.interleaverColumns = 0 ∨
      256 < self.interleaverColumns then .error .invalidLength
  else if ¬ self.flags.contains FrameFlags.fec ∧ ¬ self.modulation.isByteTransport then
    .error .invalidFlags
  else
    match self.modulation with
    | .byteTransport => .ok ()
    | .bpsk config => config.validate
    | .cpfsk config => config.validate

/-- `LinkConfig::for_profile`. -/
def LinkConfig.forProfile : WireProfile → LinkConfig
  | .wifi => ⟨.wifi, 256, FrameFlags.none, 1, .byteTransport⟩
  | .ble => ⟨.ble, 128, FrameFlags.none, 1, .byteTransport⟩
  | .hfBpsk => ⟨.hfBpsk, 64, FrameFlags.fec, 17, .bpsk ⟨160, 0.8⟩⟩
  | .hfAfsk => ⟨.hfAfsk, 64, FrameFlags.fec, 17, .cpfsk ⟨8000, 100, 1500, 1700, 0.8⟩⟩
  | .vhfAfsk => ⟨.vhfAfsk, 128, FrameFlags.fec, 23, .cpfsk ⟨48000, 1200, 1200, 2200, 0.8⟩⟩
  | .hamPacket => ⟨.hamPacket, 128, FrameFlags.fec, 23, .cpfsk ⟨48000, 1200, 1200, 2200, 0.8⟩⟩
  | .vhfCpfsk => ⟨.vhfCpfsk, 128, FrameFlags.fec, 23, .cpfsk ⟨48000, 2400, 6000, 4800, 0.8⟩⟩
  | .amAudio => ⟨.amAudio, 64, FrameFlags.fec, 17, .cpfsk ⟨8000, 100, 1000, 1300, 0.7⟩⟩
  | .fmAudio => ⟨.fmAudio, 128, FrameFlags.fec, 23, .cpfsk ⟨48000, 1200, 1200, 2200, 0.8⟩⟩
  | .meshtastic => ⟨.meshtastic, 227, FrameFlags.none, 1, .byteTransport⟩

end LatentMesh.AirRadio
