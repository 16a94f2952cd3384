import Vega.Base

/-!
# SPI and TWI ports

The configuration of `nRF5x_SPI.c` and `nRF5x_TWI.c` over `nrf_drv_spi.c` and `nrf_drv_twi.c`. A
port is one instance: the record and the flag of the library, the control block and the registers of
the driver. The library gives the SPI driver an event handler and the TWI driver none, so that only
the former enables an interrupt. Transfers are left out, and so are the GPIO pins, which are written
and not read. `applied` is a history, read by no function.

A configuration is data, and the registers are what the driver writes from it at `init`. The library
changes its record before it asks the driver, so the record of a port may differ from what the port
runs with. The two libraries are written alike in the source, and are kept alike here, with the
constants and the order of checks of each.
-/

namespace Vega

/-- One function of a library on the port with the number `index`, if there is one. -/
def atPort {n : ℕ} {π : Type} (s : Fin n → π) (index : UInt8) (f : π → π × Bool) :
    (Fin n → π) × Bool :=
  if h : index.toNat < n then
    (Function.update s ⟨index.toNat, h⟩ (f (s ⟨index.toNat, h⟩)).1, (f (s ⟨index.toNat, h⟩)).2)
  else (s, false)

/-! ### SPI -/

/-- `nrf_drv_spi_config_t`. The rate is a signed enumeration, with `NRF_SPI_FREQ_8M` below 0. -/
structure SpiConfig where
  sckPin : UInt8
  mosiPin : UInt8
  misoPin : UInt8
  ssPin : UInt8
  irqPriority : UInt8
  orc : UInt8
  dflt : UInt8
  misoDrive : UInt8
  csnPullup : UInt8
  frequency : Int32
  mode : UInt8
  bitOrder : UInt8
  deriving DecidableEq

/-- `NRF_DRV_SPI_PIN_NOT_USED` -/
def nrfDrvSpiPinNotUsed : UInt8 := 255

/-- `NRF_DRV_SPI_FREQ_4M` -/
def nrfDrvSpiFreq4M : Int32 := 0x40000000

/-- `NRF_DRV_SPI_FREQ_8M`, which is `(int)0x80000000UL`. -/
def nrfDrvSpiFreq8M : Int32 := -0x80000000

/-- `NRF_DRV_SPI_DEFAULT_CONFIG` -/
def nrfDrvSpiDefaultConfig : SpiConfig where
  sckPin := nrfDrvSpiPinNotUsed
  mosiPin := nrfDrvSpiPinNotUsed
  misoPin := nrfDrvSpiPinNotUsed
  ssPin := nrfDrvSpiPinNotUsed
  irqPriority := 7
  orc := 0xFF
  dflt := 255
  misoDrive := 0
  csnPullup := 0
  frequency := nrfDrvSpiFreq4M
  mode := 0
  bitOrder := 0

/-- The registers of a SPIM that its configuration is written to. -/
structure SpimRegs where
  pselSck : UInt32
  pselMosi : UInt32
  pselMiso : UInt32
  frequency : UInt32
  config : UInt32
  orc : UInt8
  intenEnd : Bool
  enable : Bool
  deriving DecidableEq

structure Spi where
  /-- `nRF5x_SPI_inited_flag` -/
  inited : Bool
  /-- `nRF5x_spi_config` -/
  config : SpiConfig
  /-- `state` of the control block. -/
  state : NrfDrvState
  /-- `ss_pin` of the control block. -/
  ssPin : UInt8
  regs : SpimRegs
  /-- The priority of the interrupt, if it is enabled. -/
  irq : Option UInt8
  /-- The configuration of the last `nrf_drv_spi_init` that succeeded. -/
  applied : Option SpiConfig
  deriving DecidableEq

/-- `nrf_spim_configure`: what is written to `CONFIG`. -/
def nrfSpimConfigure (mode bitOrder : UInt8) : UInt32 :=
  let config : UInt32 := if bitOrder = 0 then 0 else 1
  match mode.toNat with
  | 1 => config ||| 2
  | 2 => config ||| 4
  | 3 => config ||| 6
  | _ => config

namespace Spi

/-- The pin of a signal, `NRF_SPI_PIN_NOT_CONNECTED` for one that is not used. -/
def pinOf (pin : UInt8) : UInt32 :=
  if pin ≠ nrfDrvSpiPinNotUsed then pin.toUInt32 else 0xFFFFFFFF

/-- `nrf_drv_spi_init`: what is written to the registers. -/
def spimRegs (config : SpiConfig) : SpimRegs where
  pselSck := config.sckPin.toUInt32
  pselMosi := pinOf config.mosiPin
  pselMiso := pinOf config.misoPin
  frequency := config.frequency.toUInt32
  config := nrfSpimConfigure config.mode config.bitOrder
  orc := config.orc
  intenEnd := true
  enable := true

/-- `nrf_drv_spi_init` -/
def nrfDrvSpiInit (p : Spi) (config : SpiConfig) : Spi × RetCode :=
  if p.state ≠ .uninitialized then (p, nrfErrorInvalidState)
  else
    ({ p with
        ssPin := config.ssPin
        regs := spimRegs config
        irq := some config.irqPriority
        state := .initialized
        applied := some config }, nrfSuccess)

/-- `nrf_drv_spi_uninit` -/
def nrfDrvSpiUninit (p : Spi) : Spi :=
  { p with
    irq := none
    regs := { p.regs with intenEnd := false, enable := false }
    state := .uninitialized }

/-- `nRF5x_SPI_init` -/
def nrf5xSpiInit (p : Spi) (config : SpiConfig) : Spi × Bool :=
  let p := { p with config := config }
  let r := p.nrfDrvSpiInit p.config
  if r.2 ≠ nrfSuccess then (r.1, false)
  else ({ r.1 with inited := true }, true)

/-- `nRF5x_SPI_begin`: what is written to the record, which is all but `csn_pullup`. -/
def beginConfig (mosi miso sck : UInt8) (config : SpiConfig) : SpiConfig :=
  { config with
    mosiPin := mosi, misoPin := miso, sckPin := sck
    ssPin := nrfDrvSpiPinNotUsed, orc := 0xFF, dflt := 255, mode := 0, misoDrive := 0
    frequency := nrfDrvSpiFreq4M, bitOrder := 0, irqPriority := 7 }

/-- `nRF5x_SPI_begin` -/
def nrf5xSpiBegin (p : Spi) (mosi miso sck : UInt8) : Spi × Bool :=
  let p := { p with config := beginConfig mosi miso sck p.config }
  p.nrf5xSpiInit p.config

/-- `nRF5x_SPI_deinit` -/
def nrf5xSpiDeinit (p : Spi) : Spi × Bool :=
  let p := if p.inited then { p.nrfDrvSpiUninit with inited := false } else p
  (p, !p.inited)

/-- What the setters share: stop, change a field of the record, start again. -/
def reconfigure (f : SpiConfig → SpiConfig) (p : Spi) : Spi × Bool :=
  let r := p.nrf5xSpiDeinit
  if r.2 then
    let p := { r.1 with config := f r.1.config }
    p.nrf5xSpiInit p.config
  else (r.1, false)

end Spi

/-- The four instances. -/
abbrev SpiPorts := Fin 4 → Spi

/-- The calls of `nRF5x_SPI.h` that configure an instance. -/
inductive SpiCall
  | begin (index mosi miso sck : UInt8)
  | init (index : UInt8) (config : SpiConfig)
  | deinit (index : UInt8)
  | setMode (index mode : UInt8)
  | setBitOrder (index bitOrder : UInt8)
  | setFreq (index : UInt8) (freq : Int32)
  | setNSS (index pinNSS : UInt8)
  deriving DecidableEq

namespace SpiPorts

/-- `nRF5x_SPI_setMode` -/
def nrf5xSpiSetMode (s : SpiPorts) (index mode : UInt8) : SpiPorts × Bool :=
  if mode > 3 then (s, false) else atPort s index (Spi.reconfigure fun c ↦ { c with mode := mode })

/-- `nRF5x_SPI_setBitOrder` -/
def nrf5xSpiSetBitOrder (s : SpiPorts) (index bitOrder : UInt8) : SpiPorts × Bool :=
  if bitOrder > 1 then (s, false)
  else atPort s index (Spi.reconfigure fun c ↦ { c with bitOrder := bitOrder })

/-- `nRF5x_SPI_setFreq`. The comparison is signed. -/
def nrf5xSpiSetFreq (s : SpiPorts) (index : UInt8) (freq : Int32) : SpiPorts × Bool :=
  if freq > nrfDrvSpiFreq8M then (s, false)
  else atPort s index (Spi.reconfigure fun c ↦ { c with frequency := freq })

/-- `nRF5x_SPI_setNSS` -/
def nrf5xSpiSetNSS (s : SpiPorts) (index pinNSS : UInt8) : SpiPorts × Bool :=
  atPort s index (Spi.reconfigure fun c ↦ { c with ssPin := pinNSS })

/-- A call, and what it returns. -/
def call (s : SpiPorts) : SpiCall → SpiPorts × Bool
  | .begin index mosi miso sck => atPort s index fun p ↦ p.nrf5xSpiBegin mosi miso sck
  | .init index config => atPort s index fun p ↦ p.nrf5xSpiInit config
  | .deinit index => atPort s index fun p ↦ p.nrf5xSpiDeinit
  | .setMode index mode => s.nrf5xSpiSetMode index mode
  | .setBitOrder index bitOrder => s.nrf5xSpiSetBitOrder index bitOrder
  | .setFreq index freq => s.nrf5xSpiSetFreq index freq
  | .setNSS index pinNSS => s.nrf5xSpiSetNSS index pinNSS

/-- The variables as the program starts, and the peripherals after a reset. -/
def powerOn : SpiPorts := fun _ ↦
  { inited := false
    config := nrfDrvSpiDefaultConfig
    state := .uninitialized
    ssPin := 0
    regs := ⟨0xFFFFFFFF, 0xFFFFFFFF, 0xFFFFFFFF, 0x04000000, 0, 0, false, false⟩
    irq := none
    applied := none }

end SpiPorts

/-! ### TWI -/

/-- `nrf_drv_twi_config_t` -/
structure TwiConfig where
  sda : UInt32
  scl : UInt32
  frequency : UInt32
  interruptPriority : UInt8
  clearBusInit : Bool
  holdBusUninit : Bool
  deriving DecidableEq

/-- `NRF_DRV_TWI_DEFAULT_CONFIG` -/
def nrfDrvTwiDefaultConfig : TwiConfig where
  sda := 30
  scl := 31
  frequency := 0x01980000
  interruptPriority := 7
  clearBusInit := false
  holdBusUninit := false

/-- The registers of a TWIM that its configuration is written to. -/
structure TwimRegs where
  pselScl : UInt32
  pselSda : UInt32
  frequency : UInt32
  enable : Bool
  deriving DecidableEq

structure Twi where
  /-- `nRF5x_TWI_inited_flag` -/
  inited : Bool
  /-- `nRF5x_twi_config` -/
  config : TwiConfig
  /-- `state` of the control block. -/
  state : NrfDrvState
  /-- `hold_bus_uninit` of the control block. -/
  holdBusUninit : Bool
  regs : TwimRegs
  /-- The configuration of the last `nrf_drv_twi_init` that succeeded. -/
  applied : Option TwiConfig
  deriving DecidableEq

namespace Twi

/-- `nrf_drv_twi_init` -/
def nrfDrvTwiInit (p : Twi) (config : TwiConfig) : Twi × RetCode :=
  if p.state ≠ .uninitialized then (p, nrfErrorInvalidState)
  else
    ({ p with
        holdBusUninit := config.holdBusUninit
        regs := { p.regs with
          pselScl := config.scl, pselSda := config.sda, frequency := config.frequency }
        state := .initialized
        applied := some config }, nrfSuccess)

/-- `nrf_drv_twi_enable` -/
def nrfDrvTwiEnable (p : Twi) : Twi :=
  { p with regs := { p.regs with enable := true }, state := .poweredOn }

/-- `nrf_drv_twi_disable` -/
def nrfDrvTwiDisable (p : Twi) : Twi :=
  { p with regs := { p.regs with enable := false }, state := .initialized }

/-- `nrf_drv_twi_uninit` -/
def nrfDrvTwiUninit (p : Twi) : Twi := { p.nrfDrvTwiDisable with state := .uninitialized }

/-- `nRF5x_TWI_init` -/
def nrf5xTwiInit (p : Twi) (config : TwiConfig) : Twi × Bool :=
  let p := { p with config := config }
  let r := p.nrfDrvTwiInit p.config
  if r.2 ≠ nrfSuccess then (r.1, false)
  else ({ r.1 with inited := true }.nrfDrvTwiEnable, true)

/-- `nRF5x_TWI_begin`: what is written to the record. -/
def beginConfig (pinSDA pinSCL : UInt8) (config : TwiConfig) : TwiConfig :=
  { config with sda := pinSDA.toUInt32, scl := pinSCL.toUInt32 }

/-- `nRF5x_TWI_begin` -/
def nrf5xTwiBegin (p : Twi) (pinSDA pinSCL : UInt8) : Twi × Bool :=
  let p := { p with config := beginConfig pinSDA pinSCL p.config }
  p.nrf5xTwiInit p.config

/-- `nRF5x_TWI_deinit` -/
def nrf5xTwiDeinit (p : Twi) : Twi × Bool :=
  let p := if p.inited then { p.nrfDrvTwiUninit with inited := false } else p
  (p, !p.inited)

/-- What the setters share: stop, change a field of the record, start again. -/
def reconfigure (f : TwiConfig → TwiConfig) (p : Twi) : Twi × Bool :=
  let r := p.nrf5xTwiDeinit
  if r.2 then
    let p := { r.1 with config := f r.1.config }
    p.nrf5xTwiInit p.config
  else (r.1, false)

end Twi

/-- The two instances. -/
abbrev TwiPorts := Fin 2 → Twi

/-- The calls of `nRF5x_TWI.h` that configure an instance. -/
inductive TwiCall
  | begin (index pinSDA pinSCL : UInt8)
  | init (index : UInt8) (config : TwiConfig)
  | deinit (index : UInt8)
  | setFreq (index : UInt8) (freq : UInt32)
  | setPriority (index priority : UInt8)
  deriving DecidableEq

namespace TwiPorts

/-- `nRF5x_TWI_setFreq`: one of `NRF_TWI_FREQ_100K`, `NRF_TWI_FREQ_250K`, `NRF_TWI_FREQ_400K`. -/
def nrf5xTwiSetFreq (s : TwiPorts) (index : UInt8) (freq : UInt32) : TwiPorts × Bool :=
  if freq = 0x01980000 ∨ freq = 0x04000000 ∨ freq = 0x06680000 then
    atPort s index (Twi.reconfigure fun c ↦ { c with frequency := freq })
  else (s, false)

/-- `nRF5x_TWI_setPriority` -/
def nrf5xTwiSetPriority (s : TwiPorts) (index priority : UInt8) : TwiPorts × Bool :=
  let priority := if priority > 7 then 7 else priority
  atPort s index (Twi.reconfigure fun c ↦ { c with interruptPriority := priority })

/-- A call, and what it returns. -/
def call (s : TwiPorts) : TwiCall → TwiPorts × Bool
  | .begin index pinSDA pinSCL => atPort s index fun p ↦ p.nrf5xTwiBegin pinSDA pinSCL
  | .init index config => atPort s index fun p ↦ p.nrf5xTwiInit config
  | .deinit index => atPort s index fun p ↦ p.nrf5xTwiDeinit
  | .setFreq index freq => s.nrf5xTwiSetFreq index freq
  | .setPriority index priority => s.nrf5xTwiSetPriority index priority

/-- The variables as the program starts, and the peripherals after a reset. -/
def powerOn : TwiPorts := fun _ ↦
  { inited := false
    config := nrfDrvTwiDefaultConfig
    state := .uninitialized
    holdBusUninit := false
    regs := ⟨0xFFFFFFFF, 0xFFFFFFFF, 0x04000000, false⟩
    applied := none }

end TwiPorts

end Vega
