import Mathlib.Data.Int.Basic
import LibComm.BitField

/-!
# The settings of a UART

`uartConfigDev` reads the settings of the device, sets and clears flags in the
word `c_cflag` one field after the other, and writes the settings back. The
parity argument is set as it is, after the speed and the character size, and
before the stop bits and the flow control are cleared.
-/

namespace LibComm.UartConfig
open BitField

abbrev Flags := BitVec 32

def cbaud : Flags := 0x100f
def csize : Flags := 0x30
def cs8 : Flags := 0x30
def cstopb : Flags := 0x40
def cread : Flags := 0x80
def parenb : Flags := 0x100
def parodd : Flags := 0x200
def clocal : Flags := 0x800
def crtscts : Flags := 0x80000000

def ignbrk : Flags := 0x1
def ixon : Flags := 0x400
def ixany : Flags := 0x800
def ixoff : Flags := 0x1000
def ibaud0 : Flags := 0x80000000

def vtime : ℕ := 5
def vmin : ℕ := 6

structure Termios where
  iflag : Flags
  oflag : Flags
  cflag : Flags
  lflag : Flags
  cc : ℕ → UInt8

def cfsetospeed (tty : Termios) (speed : Flags) : Termios :=
  { tty with cflag := (tty.cflag &&& ~~~cbaud) ||| speed }

/-- For a speed that is not 0. -/
def cfsetispeed (tty : Termios) (speed : Flags) : Termios :=
  { tty with iflag := tty.iflag &&& ~~~ibaud0, cflag := (tty.cflag &&& ~~~cbaud) ||| speed }

def b9600 : Flags := 0xd
def b19200 : Flags := 0xe
def b38400 : Flags := 0xf
def b57600 : Flags := 0x1001
def b115200 : Flags := 0x1002

def uartBaudRate (baudRate : ℤ) : Flags :=
  if 9600 = baudRate then b9600
  else if 19200 = baudRate then b19200
  else if 38400 = baudRate then b38400
  else if 57600 = baudRate then b57600
  else if 115200 = baudRate then b115200
  else 0

structure Context where
  fd : ℤ
  baudRate : ℤ
  parity : ℤ
  waitTime : ℤ
  deriving DecidableEq

structure Args where
  baudRate : ℤ
  parity : ℤ
  waitTime : ℤ

structure Answers where
  tcgetattr : Option Termios
  tcsetattr : Bool

structure Configured where
  context : Option Context
  tty : Option Termios
  result : ℤ

def configure (tty : Termios) (speed : Flags) (parity waitTime : ℤ) : Termios :=
  let blockingMode := waitTime < 0
  let tty := cfsetospeed tty speed
  let tty := cfsetispeed tty speed
  let tty := { tty with cflag := (tty.cflag &&& ~~~csize) ||| cs8 }
  let tty := { tty with iflag := tty.iflag &&& ~~~ignbrk, lflag := 0, oflag := 0 }
  let cc := Function.update tty.cc vmin (if blockingMode then 1 else 0)
  let cc := Function.update cc vtime (if blockingMode then 0 else UInt8.ofInt waitTime)
  let tty := { tty with cc, iflag := tty.iflag &&& ~~~(ixon ||| ixoff ||| ixany) }
  let tty := { tty with cflag := tty.cflag ||| (clocal ||| cread) }
  let tty := { tty with cflag := tty.cflag &&& ~~~(parenb ||| parodd) }
  let tty := { tty with cflag := tty.cflag ||| BitVec.ofInt 32 parity }
  let tty := { tty with cflag := tty.cflag &&& ~~~cstopb }
  { tty with cflag := tty.cflag &&& ~~~crtscts }

def uartConfigDev (handle : Option Context) (a : Args) (t : Answers) : Configured :=
  match handle with
  | none => ⟨none, none, -1⟩
  | some c =>
    if c.fd < 0 then ⟨some c, none, -1⟩
    else
      let speed := uartBaudRate a.baudRate
      if 0 = speed then ⟨some c, none, -1⟩
      else
        let waitTime := if a.waitTime > 255 then 255 else a.waitTime
        match t.tcgetattr with
        | none => ⟨some c, none, -1⟩
        | some tty =>
          let tty := configure tty speed a.parity waitTime
          if t.tcsetattr then ⟨some ⟨c.fd, a.baudRate, a.parity, waitTime⟩, some tty, 0⟩
          else ⟨some c, none, -1⟩

def speeds : List (Flags × ℤ) :=
  [(0x0, 0), (0x1, 50), (0x2, 75), (0x3, 110), (0x4, 134), (0x5, 150), (0x6, 200), (0x7, 300),
    (0x8, 600), (0x9, 1200), (0xa, 1800), (0xb, 2400), (0xc, 4800), (0xd, 9600), (0xe, 19200),
    (0xf, 38400), (0x1001, 57600), (0x1002, 115200), (0x1003, 230400), (0x1004, 460800),
    (0x1005, 500000), (0x1006, 576000), (0x1007, 921600), (0x1008, 1000000), (0x1009, 1152000),
    (0x100a, 1500000), (0x100b, 2000000), (0x100c, 2500000), (0x100d, 3000000),
    (0x100e, 3500000), (0x100f, 4000000)]

def others : Flags :=
  ~~~(cbaud ||| csize ||| cstopb ||| crtscts ||| clocal ||| cread ||| parenb ||| parodd)

/-- The word `new` says what has been asked for, and is `old` elsewhere. -/
structure Programmed (old new : Flags) (a : Args) : Prop where
  speed : (new &&& cbaud, a.baudRate) ∈ speeds
  chars : Agree csize new cs8
  stop : Agree cstopb new 0
  flow : Agree crtscts new 0
  control : Agree (clocal ||| cread) new (clocal ||| cread)
  parity : Agree (parenb ||| parodd) new (BitVec.ofInt 32 a.parity)
  others : Agree others new old

def Timed (cc : ℕ → UInt8) (waitTime : ℤ) : Prop :=
  if waitTime < 0 then cc vmin = 1 ∧ cc vtime = 0
  else cc vmin = 0 ∧ ((cc vtime).toNat : ℤ) = min waitTime 255

structure Configures (handle : Option Context) (a : Args) (t : Answers) (r : Configured) :
    Prop where
  programs : r.result = 0 → ∃ old tty, t.tcgetattr = some old ∧ r.tty = some tty ∧
    Programmed old.cflag tty.cflag a ∧ Timed tty.cc a.waitTime
  refused : r.result = -1 → r.context = handle

structure Accepted (handle : Option Context) (a : Args) (t : Answers) (old : Termios) : Prop where
  ready : ∃ c, handle = some c ∧ 0 ≤ c.fd
  speed : uartBaudRate a.baudRate ≠ 0
  get : t.tcgetattr = some old
  set : t.tcsetattr = true

/-- The parity argument sets no flag of the speed that is not one of the speed asked for, and none
of the other flags that is not set already. -/
structure Harmless (old : Flags) (a : Args) : Prop where
  speed : Within cbaud (BitVec.ofInt 32 a.parity) (uartBaudRate a.baudRate)
  others : Within others (BitVec.ofInt 32 a.parity) old

def withoutParity (old speed : Flags) : Flags :=
  ((((((old &&& ~~~cbaud) ||| speed) &&& ~~~cbaud) ||| speed) &&& ~~~csize ||| cs8) |||
    (clocal ||| cread)) &&& ~~~(parenb ||| parodd)

theorem configure_cflag (tty : Termios) (speed : Flags) (parity waitTime : ℤ) :
    (configure tty speed parity waitTime).cflag =
      ((withoutParity tty.cflag speed ||| BitVec.ofInt 32 parity) &&& ~~~cstopb) &&& ~~~crtscts :=
  rfl

theorem uartBaudRate_cbaud (baudRate : ℤ) :
    uartBaudRate baudRate &&& cbaud = uartBaudRate baudRate := by
  unfold uartBaudRate
  split_ifs <;> decide

theorem uartBaudRate_disjoint {m : Flags} (h : cbaud &&& m = 0) (baudRate : ℤ) :
    uartBaudRate baudRate &&& m = 0 := by
  rw [← uartBaudRate_cbaud, BitVec.and_assoc, h]
  exact BitVec.and_zero

theorem uartBaudRate_speeds {baudRate : ℤ} (h : uartBaudRate baudRate ≠ 0) :
    (uartBaudRate baudRate, baudRate) ∈ speeds := by
  unfold uartBaudRate at h ⊢
  split_ifs at h ⊢ with h1 h2 h3 h4 h5
  · subst h1; decide
  · subst h2; decide
  · subst h3; decide
  · subst h4; decide
  · subst h5; decide
  · exact absurd rfl h

theorem speeds_injective : ∀ p ∈ speeds, ∀ q ∈ speeds, p.2 = q.2 → p.1 = q.1 := by decide

theorem speed_iff {new : Flags} {baudRate : ℤ} (h : uartBaudRate baudRate ≠ 0) :
    (new &&& cbaud, baudRate) ∈ speeds ↔ Agree cbaud new (uartBaudRate baudRate) := by
  rw [Agree, uartBaudRate_cbaud]
  constructor
  · intro hnew
    exact speeds_injective _ hnew _ (uartBaudRate_speeds h) rfl
  · intro hnew
    rw [hnew]
    exact uartBaudRate_speeds h

section Cflag

variable (old : Flags) (baudRate : ℤ)

theorem withoutParity_speed (speed : Flags) : Agree cbaud (withoutParity old speed) speed :=
  ((((agree_put (agree_cleared _ (by decide))).clear (by decide)).set (by decide)).set
    (by decide)).clear (by decide)

theorem withoutParity_chars (speed : Flags) : Agree csize (withoutParity old speed) cs8 :=
  ((agree_put (agree_cleared _ (by decide))).set (by decide)).clear (by decide)

theorem withoutParity_control (speed : Flags) :
    Agree (clocal ||| cread) (withoutParity old speed) (clocal ||| cread) :=
  (agree_all_set _ (by decide)).clear (by decide)

theorem withoutParity_parity (speed : Flags) :
    Agree (parenb ||| parodd) (withoutParity old speed) 0 :=
  agree_cleared _ (by decide)

theorem withoutParity_others :
    Agree others (withoutParity old (uartBaudRate baudRate)) old := by
  have hspeed : uartBaudRate baudRate &&& others = 0 := uartBaudRate_disjoint (by decide) baudRate
  have hput : ∀ {x : Flags}, Agree others x old →
      Agree others ((x &&& ~~~cbaud) ||| uartBaudRate baudRate) old :=
    fun h => (h.clear (by decide)).set hspeed
  have hold := hput (hput (Agree.refl others old))
  exact (((hold.clear (by decide)).set (by decide)).set (by decide)).clear (by decide)

end Cflag

section Configure

variable {tty : Termios} {a : Args} {waitTime : ℤ}

theorem configure_field {m y speed : Flags} (parity waitTime : ℤ) (hstop : cstopb &&& m = 0)
    (hflow : crtscts &&& m = 0) (h : Agree m (withoutParity tty.cflag speed) y) :
    Agree m (configure tty speed parity waitTime).cflag y ↔
      Within m (BitVec.ofInt 32 parity) y := by
  rw [configure_cflag, agree_clear_iff hflow, agree_clear_iff hstop, agree_set_iff h]

theorem programmed_iff (h : uartBaudRate a.baudRate ≠ 0) :
    Programmed tty.cflag (configure tty (uartBaudRate a.baudRate) a.parity waitTime).cflag a ↔
      Harmless tty.cflag a := by
  have hspeed := configure_field a.parity waitTime (by decide) (by decide)
    (withoutParity_speed tty.cflag (uartBaudRate a.baudRate))
  have hothers := configure_field a.parity waitTime (by decide) (by decide)
    (withoutParity_others tty.cflag a.baudRate)
  constructor
  · intro hp
    exact ⟨hspeed.mp ((speed_iff h).mp hp.speed), hothers.mp hp.others⟩
  · intro hh
    exact {
      speed := (speed_iff h).mpr (hspeed.mpr hh.speed)
      chars := (configure_field _ _ (by decide) (by decide) (withoutParity_chars _ _)).mpr
        (within_of_full (by decide))
      stop := (agree_cleared _ (by decide)).clear (by decide)
      flow := agree_cleared _ (by decide)
      control := (configure_field _ _ (by decide) (by decide) (withoutParity_control _ _)).mpr
        (within_of_full (by decide))
      parity := ((agree_put (withoutParity_parity _ _)).clear (by decide)).clear (by decide)
      others := hothers.mpr hh.others }

theorem configure_cc (tty : Termios) (speed : Flags) (parity waitTime : ℤ) :
    (configure tty speed parity waitTime).cc vmin = (if waitTime < 0 then 1 else 0) ∧
    (configure tty speed parity waitTime).cc vtime =
      if waitTime < 0 then 0 else UInt8.ofInt waitTime := by
  have hne : vmin ≠ vtime := by decide
  simp [configure, hne]

theorem configure_timed (tty : Termios) (speed : Flags) (parity waitTime : ℤ) :
    Timed (configure tty speed parity (if waitTime > 255 then 255 else waitTime)).cc waitTime := by
  obtain ⟨hmin, htime⟩ := configure_cc tty speed parity (if waitTime > 255 then 255 else waitTime)
  unfold Timed
  by_cases hneg : waitTime < 0
  · have hclamp : ¬ waitTime > 255 := by omega
    simp only [hclamp, hneg, if_true, if_false] at hmin htime ⊢
    exact ⟨hmin, htime⟩
  · have hclamp : (if waitTime > 255 then 255 else waitTime) = min waitTime 255 := by
      split_ifs <;> omega
    have hpos : ¬ min waitTime 255 < 0 := by omega
    rw [hclamp, if_neg hpos] at hmin htime
    rw [hclamp, if_neg hneg]
    refine ⟨hmin, ?_⟩
    rw [htime, UInt8.ofInt, UInt8.toNat_ofNat']
    omega

theorem uartConfigDev_accepted {handle : Option Context} {t : Answers} {old : Termios}
    (h : Accepted handle a t old) :
    (uartConfigDev handle a t).result = 0 ∧ (uartConfigDev handle a t).tty =
      some (configure old (uartBaudRate a.baudRate) a.parity
        (if a.waitTime > 255 then 255 else a.waitTime)) := by
  obtain ⟨c, rfl, hfd⟩ := h.ready
  simp only [uartConfigDev, if_neg (Int.not_lt.mpr hfd), if_neg h.speed.symm, h.get, h.set, if_true,
    and_self]

theorem uartConfigDev_refused {handle : Option Context} {t : Answers}
    (h : ∀ old, ¬ Accepted handle a t old) : uartConfigDev handle a t = ⟨handle, none, -1⟩ := by
  cases handle with
  | none => rfl
  | some c =>
    by_cases hfd : c.fd < 0
    · simp only [uartConfigDev, if_pos hfd]
    by_cases hspeed : 0 = uartBaudRate a.baudRate
    · simp only [uartConfigDev, if_neg hfd, if_pos hspeed]
    cases hget : t.tcgetattr with
    | none => simp only [uartConfigDev, if_neg hfd, if_neg hspeed, hget]
    | some old =>
      cases hset : t.tcsetattr with
      | false => simp [uartConfigDev, hget, hset]
      | true => exact absurd ⟨⟨c, rfl, Int.not_lt.mp hfd⟩, Ne.symm hspeed, hget, hset⟩ (h old)

end Configure

/-- A call programs what has been asked for, or leaves the handle as it is, exactly if the parity
argument is harmless when the call comes to the end. -/
theorem configures_iff (handle : Option Context) (a : Args) (t : Answers) :
    Configures handle a t (uartConfigDev handle a t) ↔
      ∀ old, Accepted handle a t old → Harmless old.cflag a := by
  constructor
  · intro h old hacc
    obtain ⟨hresult, htty⟩ := uartConfigDev_accepted hacc
    obtain ⟨old', tty, hget, htty', hprog, -⟩ := h.programs hresult
    obtain rfl := Option.some.inj (hget.symm.trans hacc.get)
    obtain rfl := Option.some.inj (htty'.symm.trans htty)
    exact (programmed_iff hacc.speed).mp hprog
  · intro h
    by_cases hacc : ∃ old, Accepted handle a t old
    · obtain ⟨old, hacc⟩ := hacc
      obtain ⟨hresult, htty⟩ := uartConfigDev_accepted hacc
      exact {
        programs := fun _ => ⟨old, _, hacc.get, htty,
          (programmed_iff hacc.speed).mpr (h old hacc), configure_timed old _ _ _⟩
        refused := fun hneg => by omega }
    · rw [uartConfigDev_refused (not_exists.mp hacc)]
      exact { programs := fun hzero => by simp at hzero, refused := fun _ => rfl }

def idle : Termios := ⟨0, 0, b9600, 0, fun _ => 0⟩
def oddCall : Args := ⟨19200, 1, -1⟩

theorem configures_fails : ¬ ∀ (handle : Option Context) (a : Args) (t : Answers),
    Configures handle a t (uartConfigDev handle a t) := by
  intro hclaim
  have h := (configures_iff (some ⟨3, 0, 0, 0⟩) oddCall ⟨some idle, true⟩).mp (hclaim _ _ _) idle
    ⟨⟨_, rfl, by decide⟩, by decide, rfl, rfl⟩
  exact absurd h.speed (by decide)

end LibComm.UartConfig
