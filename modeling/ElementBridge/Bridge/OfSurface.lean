import ElementBridge.Bridge.Facade
import ElementBridge.Bridge.Imports

namespace ElementBridge.Bridge

def ofSurface (config : Config) (s : Surface) : Bridge where
  types := typeBlocks s config.globalTypes
  facade := facadeClass s config.globalTypes
  creator := creatorFunction s config.globalTypes
  imports := importLines s config

end ElementBridge.Bridge
