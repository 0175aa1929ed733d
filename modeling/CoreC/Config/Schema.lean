import CoreC.Core.Types

/-! # The YAML form of the configuration

The struct tags of `core/engine.go`, `core/driver.go`, `core/transport.go`, `core/rule.go`,
`core/derived.go` and `core/types.go`: which keys a record has, in the order of its fields, and which of
them are left out when they are empty. -/

namespace CoreC.Config.Schema

open Core.Types Lib.GoInt Lib.Yaml Lib.Yaml.Decode Lib.Yaml.Decode.Obj

variable {c : Conv}

/-- The `iota` code of a data type. -/
def dataTypeCode (d : DataType) : ℤ := DataType.all.idxOf d

/-- `DataType.UnmarshalYAML`: a name or a number. The library gives a `uint64` for an integer that is not negative and
an `int64` for a negative one, for which the switch has no case. -/
def unmarshalDataType (c : Conv) : Scalar → Option ℤ
  | .str s => (parseDataType s).map dataTypeCode
  | .int n => if 0 ≤ n then some (IntType.int64.wrap n) else none
  | .float x => some (c.trunc x)
  | _ => none

/-- A field of type `DataType`; it is written as its code. -/
def dataType : Codec c ℤ :=
  scalarCodec 0 .int (unmarshalDataType c) (fun n => 0 ≤ n ∧ IntType.int64.InRange n) (fun n => ⟨by simp, by
    simp only [unmarshalDataType, Option.ite_none_right_eq_some, Option.some.injEq, decide_eq_true_eq]
    exact and_congr_right fun _ => ⟨fun h => h ▸ IntType.wrap_inRange _ n, IntType.wrap_eq_self⟩⟩)
    fun hf n _ _ => hf.other _ (by simp)

def tagConfig : Obj c TagConfig :=
  (Obj.and (req "name" str) <| Obj.and (req "address" str) <| Obj.and (req "type" str) <|
    Obj.and (req "group" str) <| Obj.and (req "interval" str) <| Obj.and (opt "scale" float) <|
    Obj.and (opt "offset" float) <| Obj.and (opt "deadband" float) <|
    Obj.and (opt "enforce-interval" str) <| Obj.and (opt "read-timeout" str) <|
    Obj.and (opt "protect" str) <| Obj.and (opt "trigger-group" str) (opt "triggers" str)).iso
  { toFun := fun (name, address, type, group, interval, scale, offset, deadBand, enforceInterval,
      readTimeout, protect, triggerGroup, triggers) =>
      { name, address, type, group, interval, scale, offset, deadBand, enforceInterval, readTimeout,
        protect, triggerGroup, triggers }
    invFun := fun t => (t.name, t.address, t.type, t.group, t.interval, t.scale, t.offset, t.deadBand,
      t.enforceInterval, t.readTimeout, t.protect, t.triggerGroup, t.triggers)
    left_inv := fun _ => rfl
    right_inv := fun _ => rfl }

def driverConfig : Obj c DriverConfig :=
  (Obj.and (req "name" str) <| Obj.and (req "type" str) <| Obj.and (req "settings" goMap) <|
    Obj.and (req "tags" (list tagConfig.codec)) <| Obj.and (opt "tags-file" str)
    (opt "tags-interval" str)).iso
  { toFun := fun (name, type, settings, tags, tagsFile, tagsInterval) =>
      { name, type, settings, tags, tagsFile, tagsInterval }
    invFun := fun d => (d.name, d.type, d.settings, d.tags, d.tagsFile, d.tagsInterval)
    left_inv := fun _ => rfl
    right_inv := fun _ => rfl }

def transportConfig : Obj c TransportConfig :=
  (Obj.and (req "name" str) <| Obj.and (req "type" str) <| Obj.and (req "settings" goMap) <|
    Obj.and (opt "batch-size" int) <| Obj.and (opt "flush-interval" str) <|
    Obj.and (opt "retry-count" int) <| Obj.and (opt "buffer-size" int) (opt "fallback" str)).iso
  { toFun := fun (name, type, settings, batchSize, flushInterval, retryCount, bufferSize, fallback) =>
      { name, type, settings, batchSize, flushInterval, retryCount, bufferSize, fallback }
    invFun := fun t => (t.name, t.type, t.settings, t.batchSize, t.flushInterval, t.retryCount,
      t.bufferSize, t.fallback)
    left_inv := fun _ => rfl
    right_inv := fun _ => rfl }

def transformConfig : Obj c TransformConfig :=
  (Obj.and (req "expression" str) (opt "tag-rename" str)).iso
  { toFun := fun (expression, tagRename) => { expression, tagRename }
    invFun := fun t => (t.expression, t.tagRename)
    left_inv := fun _ => rfl
    right_inv := fun _ => rfl }

def ruleConfig : Obj c RuleConfig :=
  (Obj.and (req "name" str) <| Obj.and (req "match" str) <| Obj.and (req "action" str) <|
    Obj.and (opt "target" str) <| Obj.and (opt "targets" (list str)) <| Obj.and (opt "priority" int) <|
    Obj.and (opt "transform" transformConfig.ptr) (opt "continue" bool)).iso
  { toFun := fun (name, match_, action, target, targets, priority, transform, continue_) =>
      { name, match_, action, target, targets, priority, transform, continue_ }
    invFun := fun r => (r.name, r.match_, r.action, r.target, r.targets, r.priority, r.transform, r.continue_)
    left_inv := fun _ => rfl
    right_inv := fun _ => rfl }

def derivedTagConfig : Obj c DerivedTagConfig :=
  (Obj.and (req "name" str) <| Obj.and (req "expr" str) <| Obj.and (req "type" dataType) <|
    Obj.and (opt "group" str) <| Obj.and (req "interval" str) <| Obj.and (opt "unit" str) <|
    Obj.and (opt "on-missing" str) (opt "stale-guard" str)).iso
  { toFun := fun (name, expr, type, group, interval, unit, onMissing, staleGuard) =>
      { name, expr, type, group, interval, unit, onMissing, staleGuard }
    invFun := fun t => (t.name, t.expr, t.type, t.group, t.interval, t.unit, t.onMissing, t.staleGuard)
    left_inv := fun _ => rfl
    right_inv := fun _ => rfl }

def nodeConfig : Obj c NodeConfig :=
  (Obj.and (req "id" str) <| Obj.and (req "role" str) <| Obj.and (opt "subscribe" (list str))
    (opt "topic-prefix" str)).iso
  { toFun := fun (id, role, subscribe, topicPrefix) => { id, role, subscribe, topicPrefix }
    invFun := fun n => (n.id, n.role, n.subscribe, n.topicPrefix)
    left_inv := fun _ => rfl
    right_inv := fun _ => rfl }

def apiConfig : Obj c APIConfig :=
  (Obj.and (req "listen" str) <| Obj.and (req "secret" str) <| Obj.and (opt "tls-cert" str) <|
    Obj.and (opt "tls-key" str) <| Obj.and (opt "allowed-origins" (list str)) <|
    Obj.and (opt "rate-limit-per-sec" int) <| Obj.and (opt "read-header-timeout" str) <|
    Obj.and (opt "read-timeout" str) <| Obj.and (opt "write-timeout" str) <|
    Obj.and (opt "idle-timeout" str) <| Obj.and (opt "pprof-disabled" bool) <|
    Obj.and (opt "metrics-addr" str) (opt "pprof-addr" str)).iso
  { toFun := fun (listen, secret, tlsCert, tlsKey, allowedOrigins, rateLimitPerSec, readHeaderTimeout,
      readTimeout, writeTimeout, idleTimeout, pprofDisabled, metricsAddr, pprofAddr) =>
      { listen, secret, tlsCert, tlsKey, allowedOrigins, rateLimitPerSec, readHeaderTimeout,
        readTimeout, writeTimeout, idleTimeout, pprofDisabled, metricsAddr, pprofAddr }
    invFun := fun a => (a.listen, a.secret, a.tlsCert, a.tlsKey, a.allowedOrigins, a.rateLimitPerSec,
      a.readHeaderTimeout, a.readTimeout, a.writeTimeout, a.idleTimeout, a.pprofDisabled, a.metricsAddr,
      a.pprofAddr)
    left_inv := fun _ => rfl
    right_inv := fun _ => rfl }

def engineConfig : Obj c EngineConfig :=
  (Obj.and (opt "data-bus-size" int) <| Obj.and (opt "workers" int) <|
    Obj.and (opt "shutdown-timeout" str) <| Obj.and (opt "error-throttle-window" str) <|
    Obj.and (opt "default-tag-interval" str) <| Obj.and (opt "on-bad-quality" str) <|
    Obj.and (opt "stale-threshold" str) <| Obj.and (opt "write-retry-count" int) <|
    Obj.and (opt "command-concurrency" int) <| Obj.and (opt "high-priority-workers" int) <|
    Obj.and (opt "dead-letter-path" str) <| Obj.and (opt "write-min-interval" str) <|
    Obj.and (opt "write-audit-path" str) (opt "alert-active-window" str)).iso
  { toFun := fun (dataBusSize, workers, shutdownTimeout, errorThrottleWindow, defaultTagInterval,
      onBadQuality, staleThreshold, writeRetryCount, commandConcurrency, highPriorityWorkers,
      deadLetterPath, writeMinInterval, writeAuditPath, alertActiveWindow) =>
      { dataBusSize, workers, shutdownTimeout, errorThrottleWindow, defaultTagInterval, onBadQuality,
        staleThreshold, writeRetryCount, commandConcurrency, highPriorityWorkers, deadLetterPath,
        writeMinInterval, writeAuditPath, alertActiveWindow }
    invFun := fun e => (e.dataBusSize, e.workers, e.shutdownTimeout, e.errorThrottleWindow,
      e.defaultTagInterval, e.onBadQuality, e.staleThreshold, e.writeRetryCount, e.commandConcurrency,
      e.highPriorityWorkers, e.deadLetterPath, e.writeMinInterval, e.writeAuditPath, e.alertActiveWindow)
    left_inv := fun _ => rfl
    right_inv := fun _ => rfl }

def bufferConfig : Obj c BufferConfig :=
  (Obj.and (req "enabled" bool) <| Obj.and (req "max-size" int) (req "path" str)).iso
  { toFun := fun (enabled, maxSize, path) => { enabled, maxSize, path }
    invFun := fun b => (b.enabled, b.maxSize, b.path)
    left_inv := fun _ => rfl
    right_inv := fun _ => rfl }

def globalConfig : Obj c GlobalConfig :=
  (Obj.and (req "log-level" str) <| Obj.and (req "log-format" str) <|
    Obj.and (req "api" apiConfig.codec) <| Obj.and (req "engine" engineConfig.codec)
    (req "buffer" bufferConfig.codec)).iso
  { toFun := fun (logLevel, logFormat, api, engine, buffer) =>
      { logLevel, logFormat, api, engine, buffer }
    invFun := fun g => (g.logLevel, g.logFormat, g.api, g.engine, g.buffer)
    left_inv := fun _ => rfl
    right_inv := fun _ => rfl }

def ruleProviderConfig : Obj c RuleProviderConfig :=
  (Obj.and (req "name" str) <| Obj.and (req "type" str) <| Obj.and (req "path" str) (opt "interval" str)).iso
  { toFun := fun (name, type, path, interval) => { name, type, path, interval }
    invFun := fun p => (p.name, p.type, p.path, p.interval)
    left_inv := fun _ => rfl
    right_inv := fun _ => rfl }

def config : Obj c FullConfig :=
  (Obj.and (opt "node" nodeConfig.codec) <| Obj.and (req "global" globalConfig.codec) <|
    Obj.and (req "drivers" (list driverConfig.codec)) <|
    Obj.and (req "transports" (list transportConfig.codec)) <|
    Obj.and (req "rules" (list ruleConfig.codec)) <|
    Obj.and (opt "rule-providers" (list ruleProviderConfig.codec)) <|
    Obj.and (opt "rule-groups" (dict (list ruleConfig.codec)))
    (opt "derived-tags" (list derivedTagConfig.codec))).iso
  { toFun := fun (node, global, drivers, transports, rules, ruleProviders, ruleGroups, derivedTags) =>
      { node, global, drivers, transports, rules, ruleProviders, ruleGroups, derivedTags }
    invFun := fun g => (g.node, g.global, g.drivers, g.transports, g.rules, g.ruleProviders,
      g.ruleGroups, g.derivedTags)
    left_inv := fun _ => rfl
    right_inv := fun _ => rfl }

def configCodec (c : Conv) : Codec c FullConfig := config.codec

def tagsCodec (c : Conv) : Codec c (List TagConfig) := list tagConfig.codec

def driversCodec (c : Conv) : Codec c (List DriverConfig) := list driverConfig.codec

theorem config_drivers : (config (c := c)).Has "drivers" (driversCodec c) fun cfg => cfg.drivers :=
  ((((has_req "drivers" _).left _).right _ rfl).right _ rfl).iso _

theorem driverConfig_tags : (driverConfig (c := c)).Has "tags" (tagsCodec c) DriverConfig.tags :=
  (((((has_req "tags" _).left _).right _ rfl).right _ rfl).right _ rfl).iso _

end CoreC.Config.Schema
