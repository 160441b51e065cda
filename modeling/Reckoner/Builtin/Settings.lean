import Reckoner.Interpreter

/-!
# Reading and changing settings

Without arguments all settings are listed, with one it is read, with two it is changed.  The number
of places of decimal quotients can be read like a setting.
-/

namespace Reckoner.Builtin

/-- The number of places of decimal quotients. -/
def divisionScale : Datum := .number (.int64 (Int64.ofInt Decimal.divisionScale))

/-- All settings with their values. -/
def listSettings (s : Settings) : Datum :=
  .ofList
    [.text "Backtrace", .bool s.backtrace, .text "Trace", .bool s.trace,
      .text "TracePrint", .bool s.tracePrint, .text "DivisionScale", divisionScale]

/-- The value of a setting. -/
def readSetting (s : Settings) (name : String) : Except Fault Datum :=
  if name = "Backtrace" then .ok (.bool s.backtrace)
  else if name = "Trace" then .ok (.bool s.trace)
  else if name = "TracePrint" then .ok (.bool s.tracePrint)
  else if name = "DivisionScale" then .ok divisionScale
  else .error (.unknownSetting name)

/-- Change a setting.  The switch is thrown before a trace file is opened. -/
def writeSetting (name : String) (on : Bool) : Action Unit := do
  if name = "Backtrace" then
    modify fun i => { i with settings := { i.settings with backtrace := on } }
  else if name = "Trace" then
    modify fun i => { i with settings := { i.settings with trace := on } }
    Action.setTracing on
  else if name = "TracePrint" then
    modify fun i =>
      { i with settings := { i.settings with tracePrint := on }, printsDurations := on }
  else if name = "DivisionScale" then Action.fail .fixedSetting
  else Action.fail (.unknownSetting name)

/-- List, read or change settings. -/
def changeSettings : List Datum → Action Datum
  | [] => return listSettings (← get).settings
  | [name] => do
    let name ← Action.display name
    Action.ofExcept id (readSetting (← get).settings name)
  | name :: value :: _ => do
    let name ← Action.display name
    writeSetting name value.truthy
    return .bool true

end Reckoner.Builtin
