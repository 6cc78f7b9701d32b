import InstrumentBus.Topic

/-!
The topics with a meaning of their own: commands to the bus, and what the driver announces.
-/

namespace InstrumentBus.Topic

def subscribe : Topic := ⟨"_/!sub", rfl⟩

def unsubscribe : Topic := ⟨"_/!unsub", rfl⟩

def unsubscribeAll : Topic := ⟨"_/!unsub+", rfl⟩

def query : Topic := ⟨"_/!query", rfl⟩

def deviceAdd : Topic := ⟨"@/!add", rfl⟩

def deviceRemove : Topic := ⟨"@/!remove", rfl⟩

/-- The prefixes of all devices, with commas between them. -/
def deviceList : Topic := ⟨"@/list", rfl⟩

def driverVersion : Topic := ⟨"@/version", rfl⟩

/-- The command that ends the dispatcher. -/
def finalize : Topic := ⟨"@/!final", rfl⟩

end InstrumentBus.Topic
