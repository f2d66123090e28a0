import DiamondCollectors.Py.Text
import DiamondCollectors.Py.Num
import DiamondCollectors.Py.Dict
import DiamondCollectors.Py.Re
import DiamondCollectors.Py.Json
import DiamondCollectors.Host
import DiamondCollectors.CounterState
import DiamondCollectors.Collectors.Snmp
import DiamondCollectors.Collectors.SnmpSpec
import DiamondCollectors.Collectors.Sysfs
import DiamondCollectors.Collectors.SysfsSpec
import DiamondCollectors.Collectors.Counters
import DiamondCollectors.Collectors.CounterRuns
import DiamondCollectors.Collectors.Memcached
import DiamondCollectors.Collectors.MemcachedSpec
import DiamondCollectors.Collectors.HostSpec
import DiamondCollectors.Collectors.PublishedNames
import DiamondCollectors.Collectors.Mesos
import DiamondCollectors.Collectors.MesosSpec
import DiamondCollectors.Collectors.MesosNames
import DiamondCollectors.Collectors.Uptime
