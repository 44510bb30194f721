import ClawBox.Lib.Fields

namespace ClawBox.Collector

open Fields

structure ProcStat where
  state : Text
  pgrp : ℤ
  utime : ℤ
  stime : ℤ
  deriving DecidableEq

def number (s : Text) : ℤ := (parseInt s).1

def readProcStat (data : Option Text) : Option ProcStat :=
  match data.bind (afterLast ')') with
  | none => none
  | some [] => none
  | some (_ :: rest) =>
    if rest = [] then none
    else if (fields rest).length < 13 then none
    else some {
      state := (fields rest).getD 0 []
      pgrp := number ((fields rest).getD 2 [])
      utime := number ((fields rest).getD 11 [])
      stime := number ((fields rest).getD 12 []) }

def vmRSS : List Text → ℤ
  | [] => 0
  | line :: rest =>
    if (stripPrefix? "VmRSS:".toList line).isSome && 2 ≤ (fields line).length then number ((fields line).getD 1 [])
    else vmRSS rest

def readProcStatusVMRSS : Option Text → ℤ
  | none => 0
  | some data => vmRSS (lines data)

def ioLine (acc : ℤ × ℤ) (line : Text) : ℤ × ℤ :=
  match stripPrefix? "read_bytes:".toList line with
  | some rest => (number (trimSpace rest), acc.2)
  | none =>
    match stripPrefix? "write_bytes:".toList line with
    | some rest => (acc.1, number (trimSpace rest))
    | none => acc

def readProcIO : Option Text → ℤ × ℤ
  | none => (0, 0)
  | some data => (lines data).foldl ioLine (0, 0)

def meminfoLine (acc : ℤ × ℤ) (line : Text) : ℤ × ℤ :=
  match fields line with
  | name :: value :: _ =>
    if name = "MemTotal:".toList ∨ name = "MemTotal".toList then (number value, acc.2)
    else if name = "MemAvailable:".toList ∨ name = "MemAvailable".toList then (acc.1, number value)
    else acc
  | _ => acc

def readGuestUsedMemory : Option Text → Option ℤ
  | none => none
  | some data =>
    let (totalKiB, availableKiB) := (lines data).foldl meminfoLine (-1, -1)
    if totalKiB < 0 ∨ availableKiB < 0 ∨ availableKiB > totalKiB then none
    else some ((totalKiB - availableKiB) * 1024)

structure CgroupFiles where
  cpuStat : Option Text
  memoryPeak : Option Text
  ioStat : Option Text
  pidsCurrent : Option Text

structure CpuCounters where
  usageUs : ℤ
  userUs : ℤ
  sysUs : ℤ
  usagePresent : Bool
  deriving DecidableEq

def cpuLine (acc : CpuCounters) (line : Text) : Option CpuCounters :=
  match fields line with
  | [name, value] =>
    if name = "usage_usec".toList then
      if (parseInt value).2.isSome || decide ((parseInt value).1 < 0) then none
      else some { acc with usageUs := (parseInt value).1, usagePresent := true }
    else if name = "user_usec".toList then some { acc with userUs := number value }
    else if name = "system_usec".toList then some { acc with sysUs := number value }
    else some acc
  | _ => some acc

def readCpuStat (data : Text) : Option CpuCounters :=
  match (lines data).foldlM cpuLine ⟨0, 0, 0, false⟩ with
  | none => none
  | some c => if c.usagePresent then some c else none

def ioField (acc : ℤ × ℤ) (field : Text) : ℤ × ℤ :=
  match cut '=' field with
  | none => acc
  | some (key, value) =>
    if key = "rbytes".toList then (number value, acc.2)
    else if key = "wbytes".toList then (acc.1, number value)
    else acc

def readIoStat : Option Text → ℤ × ℤ
  | none => (0, 0)
  | some data => (lines data).foldl (fun acc line => (fields line).foldl ioField acc) (0, 0)

structure CgroupCounters where
  cpuUsageUs : ℤ
  cpuUserUs : ℤ
  cpuSysUs : ℤ
  memPeak : ℤ
  readBytes : ℤ
  writeBytes : ℤ
  pids : ℤ
  deriving DecidableEq

def trimmedNumber : Option Text → ℤ
  | none => 0
  | some data => number (trimSpace data)

def readCgroupCounters (files : CgroupFiles) : Option CgroupCounters :=
  match files.cpuStat.bind readCpuStat with
  | none => none
  | some cpu => some {
      cpuUsageUs := cpu.usageUs
      cpuUserUs := cpu.userUs
      cpuSysUs := cpu.sysUs
      memPeak := trimmedNumber files.memoryPeak
      readBytes := (readIoStat files.ioStat).1
      writeBytes := (readIoStat files.ioStat).2
      pids := trimmedNumber files.pidsCurrent }

def valuesOf (key line : Text) : List ℤ :=
  (fields line).filterMap
    (fun field => (cut '=' field).bind (fun kv => if kv.1 = key then some (number kv.2) else none))

def totalOf (key data : Text) : ℤ := ((lines data).map (fun line => (valuesOf key line).sum)).sum

end ClawBox.Collector
