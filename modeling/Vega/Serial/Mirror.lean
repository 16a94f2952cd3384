import Vega.Serial.Model
import Vega.Lib.Configured
import Vega.Lib.Runs

/-!
# The stored configuration

A port is a device with a stored configuration (`Configured`): the calls of the two libraries are
the operations `start`, `stop` and `change` on the instances (`devices_call`). So the record is what
the hardware was given as long as no port that runs is begun or initialised again with something
else.

The two libraries differ in their registers, their frequencies and their two or four ports, and in
nothing that matters here. `PortLibrary` is what they have in common: a port seen as a device, a
call seen as an operation on one of them, and the law that connects the two. The run theorem is
proved of such a library (`PortLibrary.Inv.lawful_iff`), and SPI and TWI are two of them
(`spiLibrary`, `twiLibrary`).

`Programmed` is the part of the invariant that the abstract device does not know: the registers hold
what the driver was last given. It is what makes the record of a device that is up say something
about the hardware.
-/

namespace Vega

open Configured

/-- The operation on the port with the number `index`, if there is one. -/
def target (n : ℕ) {γ : Type} (index : UInt8) (op : Op γ) : Target (Fin n) γ :=
  if h : index.toNat < n then some (⟨index.toNat, h⟩, op) else none

/-- Where the function on a port is an operation on the device that the port is, the function on the
ports is that operation on the devices. -/
theorem atPort_stepAt {n : ℕ} {π γ : Type} (device : π → Configured γ) (s : Fin n → π)
    (index : UInt8) {f : π → π × Bool} {op : Op γ}
    (hf : ∀ p, (device (f p).1, (f p).2) = (device p).step op) :
    ((fun i ↦ device ((atPort s index f).1 i)), (atPort s index f).2) =
      stepAt (fun i ↦ device (s i)) (target n index op) := by
  unfold atPort target
  split
  next h =>
    simp only [stepAt, ← hf]
    congr 1
    funext i
    rw [Function.update_apply, Function.update_apply]
    split <;> rfl
  next => rfl

/-- What an operation keeps of its port is kept of all of them. -/
theorem atPort_keeps {n : ℕ} {π : Type} {P : π → Prop} {s : Fin n → π} (hs : ∀ i, P (s i))
    (index : UInt8) {f : π → π × Bool} (hf : ∀ p, P p → P (f p).1) (i : Fin n) :
    P ((atPort s index f).1 i) := by
  unfold atPort
  split
  · simp only [Function.update_apply]
    split
    · exact hf _ (hs _)
    · exact hs i
  · exact hs i

/-! ### A library over its ports -/

/-- What the two libraries share: their calls are operations on the devices that the ports are, and
keep what the hardware has in line with what the driver was given. -/
structure PortLibrary (n : ℕ) (π γ κ : Type) where
  call : (Fin n → π) → κ → (Fin n → π) × Bool
  device : π → Configured γ
  target : κ → Target (Fin n) γ
  Programmed : π → Prop
  devices_call : ∀ s c,
    ((fun i ↦ device ((call s c).1 i)), (call s c).2) = stepAt (fun i ↦ device (s i)) (target c)
  programmed_call : ∀ s c, (∀ i, Programmed (s i)) → ∀ i, Programmed ((call s c).1 i)

namespace PortLibrary

variable {n : ℕ} {π γ κ : Type} (L : PortLibrary n π γ κ)

def devices (s : Fin n → π) (i : Fin n) : Configured γ := L.device (s i)

/-- One call. -/
def step (s : Fin n → π) (c : κ) : Fin n → π := (L.call s c).1

/-- A port that is initialised is begun or initialised only with what its record holds already. -/
def Guard (s : Fin n → π) (c : κ) : Prop := AllowedAt (L.devices s) (L.target c)

/-- What a call has to keep, and that the hardware has what the driver was given. -/
structure Lawful (s : Fin n → π) (c : κ) : Prop where
  kept : Kept (L.target c) (L.devices s) (L.devices (L.call s c).1) (L.call s c).2
  programmed : ∀ i, L.Programmed ((L.call s c).1 i)

structure Inv (s : Fin n → π) : Prop where
  mirrors : ∀ i, (L.devices s i).Mirrors
  programmed : ∀ i, L.Programmed (s i)

variable {L} {s : Fin n → π}

/-- A call on one port is one operation on that device. -/
theorem devices_call_eq (s : Fin n → π) (c : κ) :
    (L.devices (L.call s c).1, (L.call s c).2) = stepAt (L.devices s) (L.target c) :=
  L.devices_call s c

/-- **One step** keeps the invariant under the guard. -/
theorem Inv.step (h : L.Inv s) {c : κ} (hc : L.Guard s c) : L.Inv (L.step s c) := by
  refine ⟨fun i ↦ ?_, L.programmed_call s c h.programmed⟩
  have hnext := mirrors_stepAt h.mirrors hc i
  rwa [← devices_call_eq] at hnext

/-- In a state with the invariant the guard is what the law asks for. -/
theorem Inv.lawful_iff (h : L.Inv s) (c : κ) : L.Guard s c ↔ L.Lawful s c := by
  have hkept := kept_stepAt_iff (t := L.target c) h.mirrors
  rw [← devices_call_eq] at hkept
  exact ⟨fun hc ↦ ⟨hkept.2 hc, L.programmed_call s c h.programmed⟩, fun hl ↦ hkept.1 hl.kept⟩

/-- **The calls that keep the records right**, over a run. -/
theorem Inv.guarded_iff (h : L.Inv s) (cs : List κ) :
    Runs.Guarded L.step L.Guard s cs ↔ Runs.Guarded L.step L.Lawful s cs :=
  Runs.guarded_congr (I := L.Inv) (fun _ _ hs hc ↦ hs.step hc) (fun _ c hs ↦ hs.lawful_iff c) h cs

end PortLibrary

/-! ### SPI -/

namespace Spi

/-- A port as a device with a stored configuration. -/
def device (p : Spi) : Configured SpiConfig where
  stored := p.config
  flag := p.inited
  up := p.state ≠ .uninitialized
  applied := p.applied

/-- While the driver is initialised the hardware has what the driver was given. -/
def Programmed (p : Spi) : Prop :=
  p.state ≠ .uninitialized → p.state = .initialized ∧ ∃ c, p.applied = some c ∧
    p.regs = spimRegs c ∧ p.ssPin = c.ssPin ∧ p.irq = some c.irqPriority

variable {p : Spi}

/-- A driver that is initialised refuses, when the record has been changed already. -/
theorem init_of_up (c : SpiConfig) (h : p.state ≠ .uninitialized) :
    p.nrf5xSpiInit c = ({ p with config := c }, false) := by
  simp [nrf5xSpiInit, nrfDrvSpiInit, h, nrfErrorInvalidState, nrfSuccess]

/-- A port that is down starts with its record. -/
theorem init_of_not_up (c : SpiConfig) (h : p.state = .uninitialized) :
    p.nrf5xSpiInit c =
      ({ p with
          inited := true, config := c, ssPin := c.ssPin, regs := spimRegs c
          irq := some c.irqPriority, state := .initialized, applied := some c }, true) := by
  simp [nrf5xSpiInit, nrfDrvSpiInit, h]

/-- An init is a start of the device. -/
theorem device_init (p : Spi) (f : SpiConfig → SpiConfig) :
    ((p.nrf5xSpiInit (f p.config)).1.device, (p.nrf5xSpiInit (f p.config)).2) =
      p.device.step (.start f) := by
  obtain h | h := eq_or_ne p.state .uninitialized
  · rw [init_of_not_up _ h, Configured.step, start_of_not_up f (by simp [device, h])]
    rfl
  · rw [init_of_up _ h, Configured.step, start_of_up f (by simp [device, h])]
    rfl

/-- So is a begin, with another record. -/
theorem device_begin (p : Spi) (mosi miso sck : UInt8) :
    ((p.nrf5xSpiBegin mosi miso sck).1.device, (p.nrf5xSpiBegin mosi miso sck).2) =
      p.device.step (.start (beginConfig mosi miso sck)) :=
  device_init p (beginConfig mosi miso sck)

/-- A deinit is a stop. -/
theorem device_deinit (p : Spi) :
    (p.nrf5xSpiDeinit.1.device, p.nrf5xSpiDeinit.2) = p.device.step .stop := by
  cases hinited : p.inited <;>
    simp [nrf5xSpiDeinit, nrfDrvSpiUninit, device, Configured.step, Configured.stop, hinited]

/-- A change of the configuration is a stop and a start. -/
theorem device_reconfigure (f : SpiConfig → SpiConfig) (p : Spi) :
    ((reconfigure f p).1.device, (reconfigure f p).2) = p.device.step (.change f) := by
  obtain ⟨hdevice, hreturn⟩ := Prod.mk.inj (device_deinit p)
  have hreturn' : p.nrf5xSpiDeinit.2 = true := hreturn
  have hinit := device_init p.nrf5xSpiDeinit.1 f
  rw [hdevice] at hinit
  rw [reconfigure, hreturn']
  exact hinit

/-- What is written to the registers is what the record says. -/
theorem programmed_init (h : p.Programmed) (c : SpiConfig) : (p.nrf5xSpiInit c).1.Programmed := by
  obtain hstate | hstate := eq_or_ne p.state .uninitialized
  · rw [init_of_not_up c hstate]
    exact fun _ ↦ ⟨rfl, c, rfl, rfl, rfl, rfl⟩
  · rw [init_of_up c hstate]
    exact h

/-- A stop writes nothing. -/
theorem programmed_deinit (h : p.Programmed) : p.nrf5xSpiDeinit.1.Programmed := by
  unfold nrf5xSpiDeinit
  dsimp only
  split
  · exact fun hstate ↦ absurd rfl hstate
  · exact h

/-- A change writes the new record. -/
theorem programmed_reconfigure (h : p.Programmed) (f : SpiConfig → SpiConfig) :
    (reconfigure f p).1.Programmed := by
  unfold reconfigure
  dsimp only
  split
  · exact programmed_init (p := { p.nrf5xSpiDeinit.1 with config := f _ }) (programmed_deinit h) _
  · exact programmed_deinit h

end Spi

namespace SpiPorts

/-- The operation of a call; none when it refuses its argument. -/
def target : SpiCall → Target (Fin 4) SpiConfig
  | .begin index mosi miso sck => Vega.target 4 index (.start (Spi.beginConfig mosi miso sck))
  | .init index config => Vega.target 4 index (.start fun _ ↦ config)
  | .deinit index => Vega.target 4 index .stop
  | .setMode index mode =>
    if mode > 3 then none else Vega.target 4 index (.change fun c ↦ { c with mode := mode })
  | .setBitOrder index bitOrder =>
    if bitOrder > 1 then none
    else Vega.target 4 index (.change fun c ↦ { c with bitOrder := bitOrder })
  | .setFreq index freq =>
    if freq > nrfDrvSpiFreq8M then none
    else Vega.target 4 index (.change fun c ↦ { c with frequency := freq })
  | .setNSS index pinNSS => Vega.target 4 index (.change fun c ↦ { c with ssPin := pinNSS })

/-- **The calls are operations** on the devices. -/
theorem devices_call (s : SpiPorts) (c : SpiCall) :
    ((fun i ↦ ((s.call c).1 i).device), (s.call c).2) =
      stepAt (fun i ↦ (s i).device) (target c) := by
  cases c with
  | begin index mosi miso sck =>
    exact atPort_stepAt Spi.device s index fun p ↦ Spi.device_begin p mosi miso sck
  | init index config =>
    exact atPort_stepAt Spi.device s index fun p ↦ Spi.device_init p fun _ ↦ config
  | deinit index => exact atPort_stepAt Spi.device s index Spi.device_deinit
  | setMode index mode =>
    simp only [call, nrf5xSpiSetMode, target]
    split
    · rfl
    · exact atPort_stepAt Spi.device s index (Spi.device_reconfigure _)
  | setBitOrder index bitOrder =>
    simp only [call, nrf5xSpiSetBitOrder, target]
    split
    · rfl
    · exact atPort_stepAt Spi.device s index (Spi.device_reconfigure _)
  | setFreq index freq =>
    simp only [call, nrf5xSpiSetFreq, target]
    split
    · rfl
    · exact atPort_stepAt Spi.device s index (Spi.device_reconfigure _)
  | setNSS index pinNSS => exact atPort_stepAt Spi.device s index (Spi.device_reconfigure _)

/-- So every call keeps the registers what the records say. -/
theorem programmed_call {s : SpiPorts} (h : ∀ i, (s i).Programmed) (c : SpiCall) :
    ∀ i, ((s.call c).1 i).Programmed := by
  have hset (index : UInt8) (f : SpiConfig → SpiConfig) :
      ∀ i, ((atPort s index (Spi.reconfigure f)).1 i).Programmed :=
    atPort_keeps h index fun _ hp ↦ Spi.programmed_reconfigure hp f
  cases c with
  | begin index mosi miso sck => exact atPort_keeps h index fun _ hp ↦ Spi.programmed_init hp _
  | init index config => exact atPort_keeps h index fun _ hp ↦ Spi.programmed_init hp config
  | deinit index => exact atPort_keeps h index fun _ hp ↦ Spi.programmed_deinit hp
  | setMode index mode =>
    simp only [call, nrf5xSpiSetMode]
    split
    · exact h
    · exact hset index _
  | setBitOrder index bitOrder =>
    simp only [call, nrf5xSpiSetBitOrder]
    split
    · exact h
    · exact hset index _
  | setFreq index freq =>
    simp only [call, nrf5xSpiSetFreq]
    split
    · exact h
    · exact hset index _
  | setNSS index pinNSS => exact hset index _

end SpiPorts

/-! ### TWI -/

namespace Twi

/-- A port as a device with a stored configuration. -/
def device (p : Twi) : Configured TwiConfig where
  stored := p.config
  flag := p.inited
  up := p.state ≠ .uninitialized
  applied := p.applied

/-- While the driver is initialised it is enabled and the hardware has what it was given. -/
def Programmed (p : Twi) : Prop :=
  p.state ≠ .uninitialized → p.state = .poweredOn ∧ ∃ c, p.applied = some c ∧
    p.regs = ⟨c.scl, c.sda, c.frequency, true⟩ ∧ p.holdBusUninit = c.holdBusUninit

variable {p : Twi}

/-- A port that is up refuses to be initialised, with its record changed. -/
theorem init_of_up (c : TwiConfig) (h : p.state ≠ .uninitialized) :
    p.nrf5xTwiInit c = ({ p with config := c }, false) := by
  simp [nrf5xTwiInit, nrfDrvTwiInit, h, nrfErrorInvalidState, nrfSuccess]

/-- A port that is down starts with its record. -/
theorem init_of_not_up (c : TwiConfig) (h : p.state = .uninitialized) :
    p.nrf5xTwiInit c =
      ({ p with
          inited := true, config := c, holdBusUninit := c.holdBusUninit
          regs := ⟨c.scl, c.sda, c.frequency, true⟩
          state := .poweredOn, applied := some c }, true) := by
  simp [nrf5xTwiInit, nrfDrvTwiInit, nrfDrvTwiEnable, h]

/-- An init is a start of the device. -/
theorem device_init (p : Twi) (f : TwiConfig → TwiConfig) :
    ((p.nrf5xTwiInit (f p.config)).1.device, (p.nrf5xTwiInit (f p.config)).2) =
      p.device.step (.start f) := by
  obtain h | h := eq_or_ne p.state .uninitialized
  · rw [init_of_not_up _ h, Configured.step, start_of_not_up f (by simp [device, h])]
    rfl
  · rw [init_of_up _ h, Configured.step, start_of_up f (by simp [device, h])]
    rfl

/-- So is a begin, with another record. -/
theorem device_begin (p : Twi) (pinSDA pinSCL : UInt8) :
    ((p.nrf5xTwiBegin pinSDA pinSCL).1.device, (p.nrf5xTwiBegin pinSDA pinSCL).2) =
      p.device.step (.start (beginConfig pinSDA pinSCL)) :=
  device_init p (beginConfig pinSDA pinSCL)

/-- A deinit is a stop. -/
theorem device_deinit (p : Twi) :
    (p.nrf5xTwiDeinit.1.device, p.nrf5xTwiDeinit.2) = p.device.step .stop := by
  cases hinited : p.inited <;>
    simp [nrf5xTwiDeinit, nrfDrvTwiUninit, nrfDrvTwiDisable, device, Configured.step,
      Configured.stop, hinited]

/-- A change of the configuration is a stop and a start. -/
theorem device_reconfigure (f : TwiConfig → TwiConfig) (p : Twi) :
    ((reconfigure f p).1.device, (reconfigure f p).2) = p.device.step (.change f) := by
  obtain ⟨hdevice, hreturn⟩ := Prod.mk.inj (device_deinit p)
  have hreturn' : p.nrf5xTwiDeinit.2 = true := hreturn
  have hinit := device_init p.nrf5xTwiDeinit.1 f
  rw [hdevice] at hinit
  rw [reconfigure, hreturn']
  exact hinit

/-- What is written to the registers is what the record says. -/
theorem programmed_init (h : p.Programmed) (c : TwiConfig) : (p.nrf5xTwiInit c).1.Programmed := by
  obtain hstate | hstate := eq_or_ne p.state .uninitialized
  · rw [init_of_not_up c hstate]
    exact fun _ ↦ ⟨rfl, c, rfl, rfl, rfl⟩
  · rw [init_of_up c hstate]
    exact h

/-- A stop writes nothing. -/
theorem programmed_deinit (h : p.Programmed) : p.nrf5xTwiDeinit.1.Programmed := by
  unfold nrf5xTwiDeinit
  dsimp only
  split
  · exact fun hstate ↦ absurd rfl hstate
  · exact h

/-- A change writes the new record. -/
theorem programmed_reconfigure (h : p.Programmed) (f : TwiConfig → TwiConfig) :
    (reconfigure f p).1.Programmed := by
  unfold reconfigure
  dsimp only
  split
  · exact programmed_init (p := { p.nrf5xTwiDeinit.1 with config := f _ }) (programmed_deinit h) _
  · exact programmed_deinit h

end Twi

namespace TwiPorts

/-- The operation of a call; none when it refuses its argument. -/
def target : TwiCall → Target (Fin 2) TwiConfig
  | .begin index pinSDA pinSCL => Vega.target 2 index (.start (Twi.beginConfig pinSDA pinSCL))
  | .init index config => Vega.target 2 index (.start fun _ ↦ config)
  | .deinit index => Vega.target 2 index .stop
  | .setFreq index freq =>
    if freq = 0x01980000 ∨ freq = 0x04000000 ∨ freq = 0x06680000 then
      Vega.target 2 index (.change fun c ↦ { c with frequency := freq })
    else none
  | .setPriority index priority =>
    Vega.target 2 index
      (.change fun c ↦ { c with interruptPriority := if priority > 7 then 7 else priority })

/-- **The calls are operations** on the devices. -/
theorem devices_call (s : TwiPorts) (c : TwiCall) :
    ((fun i ↦ ((s.call c).1 i).device), (s.call c).2) =
      stepAt (fun i ↦ (s i).device) (target c) := by
  cases c with
  | begin index pinSDA pinSCL =>
    exact atPort_stepAt Twi.device s index fun p ↦ Twi.device_begin p pinSDA pinSCL
  | init index config =>
    exact atPort_stepAt Twi.device s index fun p ↦ Twi.device_init p fun _ ↦ config
  | deinit index => exact atPort_stepAt Twi.device s index Twi.device_deinit
  | setFreq index freq =>
    simp only [call, nrf5xTwiSetFreq, target]
    split
    · exact atPort_stepAt Twi.device s index (Twi.device_reconfigure _)
    · rfl
  | setPriority index priority =>
    exact atPort_stepAt Twi.device s index (Twi.device_reconfigure _)

/-- So every call keeps the registers what the records say. -/
theorem programmed_call {s : TwiPorts} (h : ∀ i, (s i).Programmed) (c : TwiCall) :
    ∀ i, ((s.call c).1 i).Programmed := by
  have hset (index : UInt8) (f : TwiConfig → TwiConfig) :
      ∀ i, ((atPort s index (Twi.reconfigure f)).1 i).Programmed :=
    atPort_keeps h index fun _ hp ↦ Twi.programmed_reconfigure hp f
  cases c with
  | begin index pinSDA pinSCL => exact atPort_keeps h index fun _ hp ↦ Twi.programmed_init hp _
  | init index config => exact atPort_keeps h index fun _ hp ↦ Twi.programmed_init hp config
  | deinit index => exact atPort_keeps h index fun _ hp ↦ Twi.programmed_deinit hp
  | setFreq index freq =>
    simp only [call, nrf5xTwiSetFreq]
    split
    · exact hset index _
    · exact h
  | setPriority index priority => exact hset index _

end TwiPorts

/-! ### Runs -/

/-- `nRF5x_SPI.c` -/
def spiLibrary : PortLibrary 4 Spi SpiConfig SpiCall where
  call := SpiPorts.call
  device := Spi.device
  target := SpiPorts.target
  Programmed := Spi.Programmed
  devices_call := SpiPorts.devices_call
  programmed_call _ c h := SpiPorts.programmed_call h c

/-- `nRF5x_TWI.c` -/
def twiLibrary : PortLibrary 2 Twi TwiConfig TwiCall where
  call := TwiPorts.call
  device := Twi.device
  target := TwiPorts.target
  Programmed := Twi.Programmed
  devices_call := TwiPorts.devices_call
  programmed_call _ c h := TwiPorts.programmed_call h c

/-- The SPI ports at power-on. -/
theorem inv_spi : spiLibrary.Inv SpiPorts.powerOn :=
  ⟨fun _ ↦ ⟨rfl, fun h ↦ Bool.noConfusion h⟩, fun _ h ↦ absurd rfl h⟩

/-- The TWI ports at power-on. -/
theorem inv_twi : twiLibrary.Inv TwiPorts.powerOn :=
  ⟨fun _ ↦ ⟨rfl, fun h ↦ Bool.noConfusion h⟩, fun _ h ↦ absurd rfl h⟩

/-- **The stored configuration** over any calls: every call keeps it what the hardware was given
exactly as long as no port that is initialised is begun or initialised with something else. -/
theorem config_mirror_iff (as : List SpiCall) (bs : List TwiCall) :
    (Runs.Guarded spiLibrary.step spiLibrary.Guard SpiPorts.powerOn as ↔
        Runs.Guarded spiLibrary.step spiLibrary.Lawful SpiPorts.powerOn as) ∧
      (Runs.Guarded twiLibrary.step twiLibrary.Guard TwiPorts.powerOn bs ↔
        Runs.Guarded twiLibrary.step twiLibrary.Lawful TwiPorts.powerOn bs) :=
  ⟨inv_spi.guarded_iff as, inv_twi.guarded_iff bs⟩

/-- A second `nRF5x_SPI_begin` is refused, but has changed the record, and `nRF5x_SPI_setMode`
brings its pins to the hardware. -/
theorem config_not_mirrored :
    let s := (SpiPorts.powerOn.call (.begin 0 13 14 15)).1
    let s' := s.call (.begin 0 16 17 18)
    let s'' := s'.1.call (.setMode 0 1)
    s'.2 = false ∧ (s'.1 0).inited = true ∧
      (s'.1 0).config ≠ (s 0).config ∧ (s'.1 0).applied = some (s 0).config ∧
      (s'.1 0).regs.pselMosi = 13 ∧ s''.2 = true ∧ (s''.1 0).regs.pselMosi = 16 := by
  decide

end Vega
