/-!
# The version of the gateway
-/

namespace ImageGateway

/-- The version that the gateway reports. -/
def version : String := "0.1.0"

end ImageGateway
