import ClawBox.Collector.Reading
import ClawBox.Lib.Binary64
import Mathlib.Data.Rat.Init
import Mathlib.Algebra.Order.Ring.Rat
import Mathlib.Logic.Function.Basic

namespace ClawBox.Collector

open Fields Binary64

structure EnvironmentMemorySample where
  takenAt : ℤ
  bytes : ℤ
  deriving DecidableEq

-- Times are in nanoseconds; the seconds of CPU are binary64 numbers.
structure ResourceCollector where
  cgroupPath : Text := []
  cgroupOK : Bool := false
  cgroupAttachmentVerified : Bool := false
  cgroupSetupError : String := ""
  intervalMS : ℤ := 20
  executionStarted : Option ℤ := none
  cpuUserSeconds : ℚ := 0
  cpuSysSeconds : ℚ := 0
  rssPeakKiB : ℤ := 0
  rssBeforeKiB : ℤ := 0
  rssAfterKiB : ℤ := 0
  readBytes : ℤ := 0
  writeBytes : ℤ := 0
  pointCount : ℕ := 0
  maxPidCount : ℕ := 0
  firstSample : Option ℤ := none
  lastSample : Option ℤ := none
  lastUser : ℕ → Option ℤ := fun _ => none
  lastSys : ℕ → Option ℤ := fun _ => none
  lastRead : ℕ → Option ℤ := fun _ => none
  lastWrite : ℕ → Option ℤ := fun _ => none
  environmentSamples : List EnvironmentMemorySample := []
  environmentSamplesTruncated : Bool := false

structure ProcFiles where
  pid : ℕ
  stat : Option Text
  status : Option Text
  io : Option Text

def int64 (n : ℤ) : ℤ := n.bmod (2 ^ 64)

def ticksToSeconds (ticks : ℤ) : ℚ := rnd (rnd ticks / 100)

def addSeconds (seconds : ℚ) (ticks : ℤ) : ℚ := rnd (seconds + ticksToSeconds (int64 ticks))

def addBytes (total bytes : ℤ) : ℤ := int64 (total + int64 bytes)

-- Nothing is added for a pid that was not seen before or whose counter went back.
def grown {α : Type} (add : α → ℤ → α) (total : α) (last : Option ℤ) (value : ℤ) : α :=
  match last with
  | some prev => if value ≥ prev then add total (value - prev) else total
  | none => total

def ResourceCollector.note (c : ResourceCollector) (first : Bool) (pid : ℕ) (utime stime read write : ℤ) :
    ResourceCollector :=
  let seen : ResourceCollector := { c with
    lastUser := Function.update c.lastUser pid (some utime)
    lastSys := Function.update c.lastSys pid (some stime)
    lastRead := Function.update c.lastRead pid (some read)
    lastWrite := Function.update c.lastWrite pid (some write) }
  if first then seen
  else { seen with
    cpuUserSeconds := grown addSeconds c.cpuUserSeconds (c.lastUser pid) utime
    cpuSysSeconds := grown addSeconds c.cpuSysSeconds (c.lastSys pid) stime
    readBytes := grown addBytes c.readBytes (c.lastRead pid) read
    writeBytes := grown addBytes c.writeBytes (c.lastWrite pid) write }

def ProcFiles.live (p : ProcFiles) : Option ProcStat :=
  match readProcStat p.stat with
  | none => none
  | some s => if s.state = "Z".toList then none else some s

structure ScanAcc where
  collector : ResourceCollector
  rssSum : ℤ
  observedPids : ℕ

def scanProcess (first : Bool) (acc : ScanAcc) (p : ProcFiles) : ScanAcc :=
  match p.live with
  | none => acc
  | some s =>
    { collector := acc.collector.note first p.pid s.utime s.stime ( readProcIO p.io).1 ( readProcIO p.io).2
      rssSum := acc.rssSum + readProcStatusVMRSS p.status
      observedPids := acc.observedPids + 1 }

def ResourceCollector.addSample (c : ResourceCollector) (now : ℤ) : Option ℤ → ResourceCollector
  | none => c
  | some used =>
    if c.environmentSamples.length < 20000 then
      { c with environmentSamples := c.environmentSamples ++ [⟨now, used⟩] }
    else { c with environmentSamplesTruncated := true }

def ResourceCollector.scanProcessTree (c : ResourceCollector) (pids : List ProcFiles) (now : ℤ)
    (meminfo : Option Text) :
    ResourceCollector :=
  let acc := pids.foldl (scanProcess (c.pointCount == 0)) ⟨c, 0, 0⟩
  let d := acc.collector
  ({ d with
    pointCount := c.pointCount + 1
    firstSample := some (d.firstSample.getD now)
    lastSample := some now
    maxPidCount := max d.maxPidCount acc.observedPids
    rssBeforeKiB := if c.pointCount + 1 = 1 then acc.rssSum else d.rssBeforeKiB
    rssAfterKiB := acc.rssSum
    rssPeakKiB := max d.rssPeakKiB acc.rssSum }).addSample now (readGuestUsedMemory meminfo)

def startResourceCollectorPrepared (intervalMS : ℤ) (cgroupPath : Text) (cgroupSetupError : String) :
    ResourceCollector :=
  { intervalMS := if intervalMS ≤ 0 then 20 else intervalMS
    cgroupPath := cgroupPath
    cgroupOK := cgroupPath ≠ []
    cgroupAttachmentVerified := cgroupPath ≠ []
    cgroupSetupError := cgroupSetupError }

def ResourceCollector.markExecutionStart (c : ResourceCollector) (started : ℤ) : ResourceCollector :=
  { c with executionStarted := some started }

structure MemoryLabel where
  baselineBytes : ℤ := 0
  totalPeakBytes : ℤ := 0
  extraPeakBytes : ℤ := 0
  eligible : Bool := false
  timeline : List EnvironmentMemorySample := []
  unavailableReason : String := ""
  deriving DecidableEq

def maxGap : ℤ := 150 * 1000000

structure Window where
  baseline : Option EnvironmentMemorySample
  inside : List EnvironmentMemorySample
  previous : ℤ
  gap : Bool

def Window.next (started tsEnd : ℤ) (w : Window) (sample : EnvironmentMemorySample) : Window :=
  if sample.takenAt ≤ started then { w with baseline := some sample }
  else if sample.takenAt ≤ tsEnd then
    { w with
      gap := w.gap || decide (sample.takenAt < w.previous ∨ sample.takenAt - w.previous > maxGap)
      previous := sample.takenAt
      inside := w.inside ++ [sample] }
  else w

def peakBytes (sample : EnvironmentMemorySample) (rest : List EnvironmentMemorySample) : ℤ :=
  rest.foldl (fun peak s => if s.bytes > peak then s.bytes else peak) sample.bytes

def ResourceCollector.memoryLabel (c : ResourceCollector) (overlapped : Bool) (tsEnd : ℤ) : MemoryLabel :=
  if overlapped then { unavailableReason := "overlapping_environment_calls" }
  else if c.environmentSamplesTruncated then { unavailableReason := "memory_timeline_truncated" }
  else match c.executionStarted with
    | none => { unavailableReason := "execution_window_unavailable" }
    | some started =>
      let w := c.environmentSamples.foldl (Window.next started tsEnd) ⟨none, [], started, false⟩
      match w.baseline with
      | none => { unavailableReason := "stale_memory_baseline" }
      | some baseline =>
        if started - baseline.takenAt > maxGap then { unavailableReason := "stale_memory_baseline" }
        else match w.inside with
          | [] => { unavailableReason := "no_in_execution_memory_sample" }
          | first :: rest =>
            if w.gap || decide (tsEnd - ((first :: rest).getLast (by simp)).takenAt > maxGap) then
              { unavailableReason := "memory_sampling_gap" }
            else
              { baselineBytes := baseline.bytes
                totalPeakBytes := peakBytes first rest
                extraPeakBytes := if peakBytes first rest > baseline.bytes then peakBytes first rest -
                  baseline.bytes else 0
                eligible := true
                timeline := baseline :: first :: rest }

structure ResourceStats where
  source : String := "process-tree"
  monitorSource : String := "psutil-process-tree"
  attributionSource : String := "tool-bridge-pgid"
  cgroupPath : Text
  tsStart : Option ℤ
  tsEnd : ℤ
  durationMS : ℤ
  cpuUserSeconds : ℚ
  cpuSystemSeconds : ℚ
  cpuTimeSeconds : ℚ
  rssBeforeBytes : ℤ
  rssAfterBytes : ℤ
  rssPeakBytes : ℤ
  readBytesDelta : ℤ
  writeBytesDelta : ℤ
  pidCount : ℤ
  samplingIntervalMS : ℤ
  samplingPointCount : ℕ
  samplingQuality : String
  samplingCoverageMS : ℤ
  cpuSource : String := "procfs-process-tree"
  memorySource : String := "procfs-process-tree"
  diskSource : String := "procfs-process-tree"
  networkSource : String := "unavailable"
  memory : MemoryLabel
  fallbackUsed : Bool := true
  cgroupSetupError : String
  cgroupReadError : String := ""
  cgroupAttachmentVerified : Bool
  collectorErrors : List String

def milliseconds (d : ℤ) : ℤ := d.tdiv 1000000

def ResourceCollector.sampled (c : ResourceCollector) (overlapped : Bool) (tsEnd : ℤ) : ResourceStats :=
  { cgroupPath := c.cgroupPath
    tsStart := c.executionStarted
    tsEnd := tsEnd
    durationMS := match c.executionStarted with
      | some started => milliseconds (tsEnd - started)
      | none => 0
    cpuUserSeconds := c.cpuUserSeconds
    cpuSystemSeconds := c.cpuSysSeconds
    cpuTimeSeconds := rnd (c.cpuUserSeconds + c.cpuSysSeconds)
    rssBeforeBytes := c.rssBeforeKiB * 1024
    rssAfterBytes := c.rssAfterKiB * 1024
    rssPeakBytes := c.rssPeakKiB * 1024
    readBytesDelta := c.readBytes
    writeBytesDelta := c.writeBytes
    pidCount := c.maxPidCount
    samplingIntervalMS := c.intervalMS
    samplingPointCount := c.pointCount
    samplingQuality := if c.pointCount = 0 ∨ c.maxPidCount = 0 then "invalid" else "degraded"
    samplingCoverageMS := match c.firstSample, c.lastSample with
      | some first, some last => milliseconds (last - first)
      | _, _ => 0
    memory := c.memoryLabel overlapped tsEnd
    cgroupSetupError := c.cgroupSetupError
    cgroupAttachmentVerified := c.cgroupAttachmentVerified
    collectorErrors := if c.cgroupSetupError ≠ "" then [c.cgroupSetupError] else [] }

def ResourceStats.readError (s : ResourceStats) (error : String) : ResourceStats :=
  { s with cgroupReadError := error, collectorErrors := s.collectorErrors ++ [error] }

def ResourceStats.merge (s : ResourceStats) (k : CgroupCounters) : ResourceStats :=
  { s with
    source := "cgroup-v2"
    monitorSource := "cgroup-v2"
    samplingQuality := "valid"
    cpuSource := "cgroup-v2-cpu.stat"
    diskSource := "cgroup-v2-io.stat"
    cpuUserSeconds := rnd (rnd k.cpuUserUs / 1000000)
    cpuSystemSeconds := rnd (rnd k.cpuSysUs / 1000000)
    cpuTimeSeconds := rnd (rnd k.cpuUsageUs / 1000000)
    rssPeakBytes := if k.memPeak > 0 then k.memPeak else s.rssPeakBytes
    memorySource := if k.memPeak > 0 then "cgroup-v2-memory.peak" else s.memorySource
    fallbackUsed := if k.memPeak > 0 then false else s.fallbackUsed
    readBytesDelta := k.readBytes
    writeBytesDelta := k.writeBytes
    pidCount := k.pids }

def ResourceCollector.finish (c : ResourceCollector) (overlapped : Bool) (tsEnd : ℤ) (files : CgroupFiles) :
    ResourceStats :=
  let stats := c.sampled overlapped tsEnd
  if c.cgroupOK && c.cgroupPath ≠ [] then
    if !c.cgroupAttachmentVerified then
      stats.readError "execution cgroup membership was not verified before gate release"
    else match readCgroupCounters files with
      | some counters => stats.merge counters
      | none => stats.readError "read cgroup cpu.stat failed or usage_usec is missing/invalid"
  else stats

end ClawBox.Collector
