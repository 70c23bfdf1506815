import SlidingWindow.PacketManager
import SlidingWindow.Library.Decimal

/-! How the error library is set up in a process: the environment first, then what the
program asks for in `sendErr_init`, which a variable that is set overrides. The port,
the debug level and the autograder variable change nothing that is sent. -/
namespace SlidingWindow

open Library

def isSpace (char : UInt8) : Bool := char = 32 ∨ 9 ≤ char ∧ char ≤ 13

def longMax : ℤ := 9223372036854775807
def longMin : ℤ := -9223372036854775808

/-- `strtol(str, &end, 10)`; `none` if `end` is left at the start of `str`. -/
def strtol (str : Bytes) : Option ℤ :=
  let str := str.dropWhile isSpace
  let number := if str.head? = some 45 ∨ str.head? = some 43 then str.tail else str
  let digits := number.takeWhile Decimal.isDigit
  if digits = [] then none
  else if str.head? = some 45 then some (max longMin (-Decimal.value digits))
  else some (min longMax (Decimal.value digits))

/-- The tokens of `strtok_r`, which skips empty ones. -/
def tokens (str : Bytes) (delimiter : UInt8) : List Bytes :=
  (str.splitOn delimiter).filter (· ≠ [])

/-- The variables that change what is sent; `errRate` is the number that `strtof` finds. -/
structure Environment where
  /-- `CPE464_OVERRIDE_SEEDRAND`. -/
  seedRand : Option Bytes
  /-- `CPE464_OVERRIDE_ERR_RATE`. -/
  errRate : Option ℚ
  /-- `CPE464_OVERRIDE_ERR_DROP`. -/
  errDrop : Option Bytes
  /-- `CPE464_OVERRIDE_ERR_FLIP`. -/
  errFlip : Option Bytes

/-- `m_EnvData`: an entry is `none` when it is not set. -/
structure SettingsManager where
  seedRand : Option ℤ
  errRate : Option ℚ
  errDrop : Option (List ℤ)
  errFlip : Option (List ℤ)
  deriving DecidableEq

namespace SettingsManager

def readTokens : List Bytes → List ℤ
  | [] => []
  | token :: rest =>
      match strtol token with
      | some val => val :: readTokens rest
      | none => []

def parser2ListLong (str : Bytes) : List ℤ := readTokens (tokens str 44)

/-- Negative numbers are left out, and the others stored in 32 bits. -/
def parserLong2Uint32 (longs : List ℤ) : List ℕ :=
  (longs.filter (0 ≤ ·)).map fun long => u32 long.toNat

def loadEnvData (env : Environment) : SettingsManager where
  seedRand := env.seedRand.bind strtol
  errRate := env.errRate
  errDrop := env.errDrop.map parser2ListLong
  errFlip := env.errFlip.map parser2ListLong

end SettingsManager

namespace PacketManager

def setRandSeed (m : PacketManager) (seed : ℤ) : PacketManager := { m with rand := srand48 seed }

def setErrorRate (m : PacketManager) (rate : ℚ) : PacketManager := { m with errorRate := rate }

def addMsgEventStandard (m : PacketManager) (event : MsgEvent) : PacketManager :=
  { m with constant := m.constant ++ [event] }

def addMsgEventRandom (m : PacketManager) (event : MsgEvent) : PacketManager :=
  { m with chance := m.chance ++ [event] }

/-- The constructor, which seeds the generator with the time. -/
def initial (time : ℤ) : PacketManager where
  errorRate := 0
  msgNo := 0
  constant := []
  chance := []
  rand := srand48 time

end PacketManager

namespace SettingsManager

def loadEnvDataSeedRand (s : SettingsManager) (m : PacketManager) : PacketManager :=
  match s.seedRand with
  | some seed => m.setRandSeed seed
  | none => m

def loadEnvDataErrRate (s : SettingsManager) (m : PacketManager) : PacketManager :=
  match s.errRate with
  | some rate => m.setErrorRate rate
  | none => m

def loadEnvDataErrDrop (s : SettingsManager) (m : PacketManager) : PacketManager :=
  match s.errDrop with
  | some longs =>
      let list := parserLong2Uint32 longs
      if list.length = 0 then m.addMsgEventRandom (.errorDrop true [])
      else m.addMsgEventStandard (.errorDrop false list)
  | none => m

/-- A list of messages to flip is not implemented: nothing is added for it. -/
def loadEnvDataErrFlip (s : SettingsManager) (m : PacketManager) : PacketManager :=
  match s.errFlip with
  | some longs =>
      if (parserLong2Uint32 longs).length = 0 then m.addMsgEventRandom .errorFlipBits else m
  | none => m

def setUserModeErrRate (s : SettingsManager) (m : PacketManager) (rate : ℚ) : PacketManager :=
  if s.errRate.isSome then m else m.setErrorRate rate

def setUserModeErrDrop (s : SettingsManager) (m : PacketManager) (isEnabled : Bool) :
    PacketManager :=
  if s.errDrop.isSome then m
  else if isEnabled then m.addMsgEventRandom (.errorDrop true []) else m

def setUserModeErrFlip (s : SettingsManager) (m : PacketManager) (isEnabled : Bool) :
    PacketManager :=
  if s.errFlip.isSome then m
  else if isEnabled then m.addMsgEventRandom .errorFlipBits else m

def setUserModeSeedRand (s : SettingsManager) (m : PacketManager) (seed : ℤ) : PacketManager :=
  if s.seedRand.isSome then m else m.setRandSeed seed

def load (s : SettingsManager) (m : PacketManager) : PacketManager :=
  s.loadEnvDataErrFlip (s.loadEnvDataErrDrop (s.loadEnvDataErrRate (s.loadEnvDataSeedRand m)))

def sendErrInit (s : SettingsManager) (m : PacketManager) (errorRate : ℚ)
    (dropFlag flipFlag randomFlag : Bool) (time : ℤ) : PacketManager :=
  let m := m.addMsgEventStandard (.infoSeqNo [] [])
  let m := s.setUserModeErrRate m errorRate
  let m := s.setUserModeErrDrop m dropFlag
  let m := s.setUserModeErrFlip m flipFlag
  s.setUserModeSeedRand m (if randomFlag then time else 10)

end SettingsManager

/-- The manager of `rcopy` and of the server when their `main` has called `sendErr_init`:
both ask for drops, flips and a random seed. -/
def linked (env : Environment) (errorRate : ℚ) (loaded called : ℤ) : PacketManager :=
  let s := SettingsManager.loadEnvData env
  s.sendErrInit (s.load (PacketManager.initial loaded)) errorRate true true true called

end SlidingWindow
